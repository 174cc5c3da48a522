import Concordance.Proofs.Extract.Base
import Concordance.Proofs.Tree.Preorder

/-!
# Passes over a tree

Each of the four passes of an extraction visits the nodes of a walk one after the other and keeps what
each of them gives. A walk is the pre-order of the tree, so the records of a pass are those of all
nodes in document order (`Extract.gathers_of_extract`), and a tree that cannot be read fails at the
first node that cannot (`Extract.extract_eq_error_iff`).
-/

namespace Concordance.Extract

variable {ctx : Context} {t : Tree} {e : Extraction} {fault : Fault}

/-- The records of an extraction are, pass by pass, those of the nodes of a tree in document order.
Symbols are linked to their members afterwards, each in its place. -/
structure Gathers (ctx : Context) (t : Tree) (e : Extraction) : Prop where
  ofSymbols : ∃ declared symbols, (∀ n, Node.Of t n → declarations ctx n = .ok (declared n)) ∧
    Node.Listed t declared symbols ∧ e.symbols = symbols.map (Symbol.withMembers symbols)
  ofImports : Node.Listed t (imports ctx) e.imports
  ofExports : Node.Listed t (exports ctx) e.exports
  ofReferences : Node.Listed t (fun n => references ctx n.tree) e.references

/-- A node that cannot be read, for the given reason, while all nodes before it can. -/
def FailsFirst (ctx : Context) (t : Tree) (n : Node) (fault : Fault) : Prop :=
  Node.Of t n ∧ declarations ctx n = .error fault ∧
    ∀ m, Node.Of t m → m.Precedes n → ∃ symbols, declarations ctx m = .ok symbols

/-- The symbols of a tree that can be read are what its nodes declare, node after node. -/
theorem exists_declared {all : List Symbol} (h : symbols ctx t = .ok all) :
    ∃ declared, (∀ n, Node.Of t n → declarations ctx n = .ok (declared n)) ∧
      all = (Node.root t).walk.flatMap declared := by
  obtain ⟨lists, hlists, h⟩ := Attempt.exists_of_bind_eq_ok h
  have hread : ∀ n ∈ (Node.root t).walk,
      declarations ctx n = .ok ((declarations ctx n).toOption.getD []) := by
    intro n hn
    obtain ⟨own, hown⟩ := Attempt.forall_of_mapM_eq_ok hlists n hn
    rw [hown]
    rfl
  rw [Attempt.mapM_eq_ok hread] at hlists
  cases hlists
  cases h
  exact ⟨_, fun n hn => hread n (Node.mem_walk_iff.mpr hn), rfl⟩

/-- **What is extracted is listed in document order.** -/
theorem gathers_of_extract (h : extract ctx t = .ok e) : Gathers ctx t e := by
  obtain ⟨all, hall, h⟩ := Attempt.exists_of_bind_eq_ok h
  cases h
  obtain ⟨declared, hdeclared, rfl⟩ := exists_declared hall
  exact
    { ofSymbols := ⟨declared, _, hdeclared, Node.listed_walk t declared, rfl⟩
      ofImports := Node.listed_walk t _
      ofExports := Node.listed_walk t _
      ofReferences := Node.listed_walk t _ }

/-- An extraction fails as the visits to its nodes do. -/
theorem extract_eq_error_iff_walk :
    extract ctx t = .error fault ↔ (Node.root t).walk.mapM (declarations ctx) = .error fault := by
  rw [extract, symbols]
  cases (Node.root t).walk.mapM (declarations ctx) with
  | ok lists =>
      constructor
      · intro h
        cases h
      · intro h
        cases h
  | error e =>
      constructor
      · intro h
        cases h
        rfl
      · intro h
        cases h
        rfl

/-- **An extraction fails at the first node that cannot be read.** -/
theorem extract_eq_error_iff :
    extract ctx t = .error fault ↔ ∃ n, FailsFirst ctx t n fault := by
  rw [extract_eq_error_iff_walk]
  constructor
  · intro h
    obtain ⟨first, n, rest, hwalk, hn, hfirst⟩ := Attempt.exists_of_mapM_eq_error h
    have hof : Node.Of t n := Node.of_mem_walk (hwalk ▸ by simp)
    exact ⟨n, hof, hn, fun m hm hprecedes => hfirst m (hprecedes.mem_before hm hwalk)⟩
  · rintro ⟨n, hof, hn, hbefore⟩
    obtain ⟨before, after, hwalk, hpreceding, -⟩ := Node.exists_split_walk hof
    rw [hwalk]
    refine Attempt.mapM_append_of_error (fun m hm => ?_) hn after
    obtain ⟨hm, hprecedes⟩ := hpreceding m hm
    exact hbefore m hm hprecedes

/-- **Passes go through a tree in document order.** However deep a tree is and however it branches, a
walk of it is its recursive pre-order. It visits exactly the nodes of the tree, each once and in
document order, and in the tree of a source without going back to an earlier byte. So every pass
lists the records of all nodes in this order; and a tree is not read if and only if a node cannot be,
for the reason that the first such node gives. -/
theorem passes_in_document_order (t : Tree) :
    (Node.root t).walk = (Node.root t).preorder ∧
      (Node.root t).walk.map Node.tree = t.preorder ∧
      (Node.root t).walk.Nodup ∧ (∀ n, n ∈ (Node.root t).walk ↔ Node.Of t n) ∧
      (Node.root t).walk.Pairwise Node.Precedes ∧
      (∀ limit, t.Ordered limit →
        (Node.root t).walk.Pairwise fun m n => m.tree.start ≤ n.tree.start) ∧
      ∀ ctx : Context,
        (∀ e, extract ctx t = .ok e → Gathers ctx t e) ∧
          ∀ fault, extract ctx t = .error fault ↔ ∃ n, FailsFirst ctx t n fault := by
  have horder := (Node.root t).pairwise_precedes_walk
  refine ⟨Node.walk_eq_preorder _, Node.map_tree_walk t, horder.imp Node.Precedes.ne,
    fun n => Node.mem_walk_iff, horder, fun limit h => ?_, fun ctx => ?_⟩
  · have hstart := h.pairwise_start_preorder
    rwa [← Node.map_tree_walk, List.pairwise_map] at hstart
  · exact ⟨fun e => gathers_of_extract, fun fault => extract_eq_error_iff⟩

/-- With a comment before the name of its base a class fails at the first node that cannot be read; with
the comment behind the name all of it is read. -/
theorem passes_in_document_order_commented :
    (Node.root (classTree commentBeforeBase)).walk.map Node.way =
        [[], [0], [0, 0], [0, 1], [0, 1, 0], [0, 1, 1], [0, 2]] ∧
      (classTree commentBeforeBase).Ordered 28 ∧
      ((Node.root (classTree commentBeforeBase)).walk.Pairwise fun m n =>
        m.tree.start ≤ n.tree.start) ∧
      (∃ n, FailsFirst classContext (classTree commentBeforeBase) n .noBaseName) ∧
      ∃ e, extract classContext (classTree commentBeforeBase.reverse) = .ok e ∧
        Gathers classContext (classTree commentBeforeBase.reverse) e := by
  obtain ⟨-, -, -, -, -, hstart, hpasses⟩ := passes_in_document_order (classTree commentBeforeBase)
  obtain ⟨-, -, -, -, -, -, hreversed⟩ :=
    passes_in_document_order (classTree commentBeforeBase.reverse)
  have hordered : (classTree commentBeforeBase).Ordered 28 := by decide
  have hfails : extract classContext (classTree commentBeforeBase) = .error .noBaseName :=
    extract_eq_error (by decide) (Tree.child_mem_preorder List.mem_cons_self) (by decide)
  obtain ⟨e, he⟩ : ∃ e, extract classContext (classTree commentBeforeBase.reverse) = .ok e :=
    exists_extract_eq_ok (by decide) (by decide)
  exact ⟨by decide +kernel, hordered, hstart 28 hordered, ((hpasses classContext).2 _).mp hfails,
    e, he, (hreversed classContext).1 e he⟩

end Concordance.Extract
