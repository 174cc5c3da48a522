import Concordance.Proofs.Tree.Ordered
import Mathlib.Data.List.Lex

/-!
# The order of a walk

The pre-order of a node is the node and then, child after child, the pre-orders of its children
(`Node.preorder`). A walk has only its stack to go by, and the invariant is about all of it: what the
walk still visits are the pre-orders of the nodes on the stack, from the top (`Node.walkStack_eq`).

Where a node stands is told by the way to it (`Node.way`): at each step down, how many siblings come
before. Document order is the lexicographic order of ways (`Node.Precedes`), so a node comes before all
that stands below it, and what stands below a child before what stands below a later one. A walk
visits exactly the nodes of its tree (`Node.mem_walk_iff`), in document order
(`Node.pairwise_precedes_walk`), and so the records that are kept from node to node are in document
order too (`Node.listed_walk`). In the tree of a source a walk never goes back to an earlier byte
(`Tree.Ordered.pairwise_start_preorder`).
-/

namespace Concordance

namespace Node

variable {n m c d : Node}

/-! ### The recursive order -/

theorem tree_mem_children (hc : c ∈ n.children) : c.tree ∈ n.tree.children :=
  (parent?_of_mem_placed hc).2

/-- A node, then the pre-orders of its children from left to right. -/
def preorder (n : Node) : List Node :=
  n :: n.children.attach.flatMap fun c => c.1.preorder
termination_by n.tree.size
decreasing_by exact Tree.size_lt_of_mem (tree_mem_children c.2)

theorem preorder_eq (n : Node) : n.preorder = n :: n.children.flatMap preorder := by
  rw [preorder, List.flatMap_subtype (fun _ _ => rfl), List.unattach_attach]

/-- What stands below a node is the node itself, or stands below one of its children. -/
theorem mem_preorder_iff : m ∈ n.preorder ↔ m = n ∨ ∃ c ∈ n.children, m ∈ c.preorder := by
  rw [preorder_eq, List.mem_cons, List.mem_flatMap]

theorem self_mem_preorder (n : Node) : n ∈ n.preorder :=
  mem_preorder_iff.mpr (.inl rfl)

/-- The children of what is in a pre-order are in it too. -/
theorem child_mem_preorder (hm : m ∈ n.preorder) (hc : c ∈ m.children) : c ∈ n.preorder := by
  induction n using preorder.induct with
  | case1 n ih =>
      rcases mem_preorder_iff.mp hm with rfl | ⟨d, hd, hm⟩
      · exact mem_preorder_iff.mpr (.inr ⟨c, hc, c.self_mem_preorder⟩)
      · exact mem_preorder_iff.mpr (.inr ⟨d, hd, ih ⟨d, hd⟩ hm⟩)

/-! ### The stack -/

/-- One step of a walk: the node on top is visited, and its children take its place. -/
theorem flatMap_preorder_cons (n : Node) (rest : List Node) :
    (n :: rest).flatMap preorder = n :: (n.children ++ rest).flatMap preorder := by
  rw [List.flatMap_cons, preorder_eq, List.cons_append, List.flatMap_append]

/-- **The whole stack.** What is still visited are the pre-orders of the nodes on the stack, from the
top. -/
theorem walkStack_eq (stack : List Node) : walkStack stack = stack.flatMap preorder := by
  fun_induction walkStack stack with
  | case1 => rfl
  | case2 n rest ih => rw [ih, flatMap_preorder_cons]

/-- **A walk is the pre-order.** -/
theorem walk_eq_preorder (n : Node) : n.walk = n.preorder := by
  rw [walk, walkStack_eq, List.flatMap_singleton]

/-- A walk visits the nodes of its tree and no others. -/
theorem mem_walk_iff {t : Tree} : n ∈ (Node.root t).walk ↔ Of t n := by
  refine ⟨of_mem_walk, fun h => ?_⟩
  rw [walk_eq_preorder]
  induction h with
  | root => exact self_mem_preorder _
  | child _ hc ih => exact child_mem_preorder ih hc

/-! ### Document order -/

/-- The way down to a node: at each step the number of siblings before. -/
def way (n : Node) : List Nat :=
  (n.above.map fun a => a.earlier.length).reverse

/-- One node comes before another in document order. -/
def Precedes (m n : Node) : Prop :=
  List.Lex (· < ·) m.way n.way

instance (m n : Node) : Decidable (m.Precedes n) :=
  List.decidableLex _ _ _

-- equal children are different nodes: they are told apart by what stands before them
example : Precedes ⟨default, [⟨default, []⟩]⟩ ⟨default, [⟨default, [default]⟩]⟩ := by
  decide

/-- Of two nodes at most one comes before the other. -/
theorem Precedes.asymm (h : m.Precedes n) : ¬ n.Precedes m :=
  List.lex_asymm Nat.lt_asymm h

theorem Precedes.ne (h : m.Precedes n) : m ≠ n := by
  rintro rfl
  exact h.asymm h

/-- The way to a child is that to its parent, and how many children come before it. -/
theorem way_placed (n : Node) (t : Tree) (before : List Tree) :
    way ⟨t, ⟨n.tree, before⟩ :: n.above⟩ = n.way ++ [before.length] := by
  rw [way, List.map_cons, List.reverse_cons, way]

/-- The way to a child goes one step further. -/
theorem exists_way_of_mem_placed {before rest : List Tree} (hc : c ∈ n.placed before rest) :
    ∃ k, before.length ≤ k ∧ c.way = n.way ++ [k] := by
  induction rest generalizing before with
  | nil => cases hc
  | cons t rest ih =>
      rcases List.mem_cons.mp hc with rfl | hc
      · exact ⟨before.length, Nat.le_refl _, way_placed n t before⟩
      · obtain ⟨k, hk, hway⟩ := ih hc
        exact ⟨k, Nat.le_of_succ_le hk, hway⟩

/-- What is in a pre-order is reached by going on from its node. -/
theorem exists_way_of_mem_preorder (hm : m ∈ n.preorder) : ∃ on, m.way = n.way ++ on := by
  induction n using preorder.induct with
  | case1 n ih =>
      rcases mem_preorder_iff.mp hm with rfl | ⟨c, hc, hm⟩
      · exact ⟨[], (List.append_nil _).symm⟩
      · obtain ⟨on, hon⟩ := ih ⟨c, hc⟩ hm
        obtain ⟨k, -, hway⟩ := exists_way_of_mem_placed hc
        exact ⟨k :: on, by rw [hon, hway, List.append_assoc, List.singleton_append]⟩

/-- A node comes before what is reached by going on from it. -/
theorem precedes_of_way {k : Nat} {on : List Nat} (h : m.way = n.way ++ k :: on) : n.Precedes m := by
  have hlex : List.Lex (· < ·) (n.way ++ []) (n.way ++ k :: on) := .append_left _ .nil _
  rwa [List.append_nil, ← h] at hlex

/-- A node comes before all that stands below it. -/
theorem precedes_below (hc : c ∈ n.children) (hm : m ∈ c.preorder) : n.Precedes m := by
  obtain ⟨k, -, hway⟩ := exists_way_of_mem_placed hc
  obtain ⟨on, hon⟩ := exists_way_of_mem_preorder hm
  rw [hway, List.append_assoc, List.singleton_append] at hon
  exact precedes_of_way hon

/-- Of two nodes that are reached through children of one node the one through the earlier child
comes first. -/
theorem precedes_of_ways {i j : Nat} (hij : i < j) (hc : c.way = n.way ++ [i])
    (hd : d.way = n.way ++ [j]) {p q : Node} (hp : p ∈ c.preorder) (hq : q ∈ d.preorder) :
    p.Precedes q := by
  obtain ⟨on, hon⟩ := exists_way_of_mem_preorder hp
  obtain ⟨on', hon'⟩ := exists_way_of_mem_preorder hq
  rw [Precedes, hon, hon', hc, hd, List.append_assoc, List.append_assoc]
  exact .append_left _ (.rel hij) _

/-- What stands below a child comes before what stands below the later ones. -/
theorem pairwise_placed (n : Node) (before rest : List Tree) :
    (n.placed before rest).Pairwise fun c d =>
      ∀ p ∈ c.preorder, ∀ q ∈ d.preorder, p.Precedes q := by
  induction rest generalizing before with
  | nil => exact .nil
  | cons t rest ih =>
      refine .cons (fun d hd p hp q hq => ?_) (ih (t :: before))
      obtain ⟨j, hj, hway⟩ := exists_way_of_mem_placed hd
      exact precedes_of_ways (Nat.lt_of_succ_le hj) (way_placed n t before) hway hp hq

/-- A pre-order is in document order. -/
theorem pairwise_precedes_preorder (n : Node) : n.preorder.Pairwise Precedes := by
  induction n using preorder.induct with
  | case1 n ih =>
      rw [preorder_eq, List.pairwise_cons, List.pairwise_flatMap]
      refine ⟨fun m hm => ?_, fun c hc => ih ⟨c, hc⟩, pairwise_placed n [] _⟩
      obtain ⟨c, hc, hm⟩ := List.mem_flatMap.mp hm
      exact precedes_below hc hm

/-- **A walk is in document order.** -/
theorem pairwise_precedes_walk (n : Node) : n.walk.Pairwise Precedes :=
  n.walk_eq_preorder ▸ n.pairwise_precedes_preorder

/-- Every node stands at one place of a walk: what is visited before it precedes it, and it precedes
what is visited after it. -/
theorem exists_split_walk {t : Tree} (h : Of t n) :
    ∃ before after, (Node.root t).walk = before ++ n :: after ∧
      (∀ m ∈ before, Of t m ∧ m.Precedes n) ∧ ∀ m ∈ after, Of t m ∧ n.Precedes m := by
  obtain ⟨before, after, hwalk⟩ := List.append_of_mem (mem_walk_iff.mpr h)
  have hof : ∀ m ∈ before ++ n :: after, Of t m := fun m hm => of_mem_walk (hwalk ▸ hm)
  have horder : (before ++ n :: after).Pairwise Precedes := hwalk ▸ pairwise_precedes_walk _
  obtain ⟨-, hafter, hbetween⟩ := List.pairwise_append.mp horder
  refine ⟨before, after, hwalk, fun m hm => ?_, fun m hm => ?_⟩
  · exact ⟨hof m (List.mem_append_left _ hm), hbetween m hm n List.mem_cons_self⟩
  · exact ⟨hof m (List.mem_append_right _ (List.mem_cons_of_mem _ hm)),
      List.rel_of_pairwise_cons hafter hm⟩

/-- What precedes a node is visited before it. -/
theorem Precedes.mem_before (h : m.Precedes n) {t : Tree} (hm : Of t m) {before after : List Node}
    (hwalk : (Node.root t).walk = before ++ n :: after) : m ∈ before := by
  have horder : (before ++ n :: after).Pairwise Precedes := hwalk ▸ pairwise_precedes_walk _
  have hmem : m ∈ before ++ n :: after := hwalk ▸ mem_walk_iff.mpr hm
  rcases List.mem_append.mp hmem with hbefore | hlate
  · exact hbefore
  · rcases List.mem_cons.mp hlate with rfl | hafter
    · exact absurd rfl h.ne
    · obtain ⟨-, hrest, -⟩ := List.pairwise_append.mp horder
      exact absurd h (List.rel_of_pairwise_cons hrest hafter).asymm

/-! ### Records of the nodes -/

section Records

variable {α : Type} {own : Node → List α}

/-- The records of a node, each with the node. -/
def marked (own : Node → List α) (n : Node) : List (Node × α) :=
  (own n).map (n, ·)

/-- The records are those of the nodes of a tree in document order. Wherever a node stands in the
tree, the records of nodes before it come first, then its own, then those of nodes after it. -/
def Listed (t : Tree) (own : Node → List α) (records : List α) : Prop :=
  ∃ all : List (Node × α), all.map Prod.snd = records ∧
    ∀ n, Of t n → ∃ before after, all = before ++ marked own n ++ after ∧
      (∀ r ∈ before, Of t r.1 ∧ r.1.Precedes n) ∧ ∀ r ∈ after, Of t r.1 ∧ n.Precedes r.1

theorem map_snd_marked (nodes : List Node) :
    (nodes.flatMap (marked own)).map Prod.snd = nodes.flatMap own := by
  simp [marked, List.map_flatMap, Function.comp_def]

theorem mem_of_mem_marked {nodes : List Node} {r : Node × α} (h : r ∈ nodes.flatMap (marked own)) :
    r.1 ∈ nodes := by
  obtain ⟨n, hn, hr⟩ := List.mem_flatMap.mp h
  obtain ⟨-, -, rfl⟩ := List.mem_map.mp hr
  exact hn

/-- A pass over a tree lists the records of its nodes. -/
theorem listed_walk (t : Tree) (own : Node → List α) :
    Listed t own ((Node.root t).walk.flatMap own) := by
  refine ⟨(Node.root t).walk.flatMap (marked own), map_snd_marked _, fun n hn => ?_⟩
  obtain ⟨before, after, hwalk, hbefore, hafter⟩ := exists_split_walk hn
  refine ⟨before.flatMap (marked own), after.flatMap (marked own), ?_, ?_, ?_⟩
  · rw [hwalk, List.flatMap_append, List.flatMap_cons, List.append_assoc]
  · exact fun r hr => hbefore r.1 (mem_of_mem_marked hr)
  · exact fun r hr => hafter r.1 (mem_of_mem_marked hr)

end Records

end Node

/-! ### The order of the source -/

namespace Tree

theorem preorders_eq_flatMap (ts : List Tree) : preorders ts = ts.flatMap preorder := by
  induction ts with
  | nil => rfl
  | cons t ts ih => rw [preorders, ih, List.flatMap_cons]

/-- The pre-order of a tree in the order of its source never goes back. -/
theorem Ordered.pairwise_start_preorder {limit : Nat} {t : Tree} (h : t.Ordered limit) :
    t.preorder.Pairwise fun u v => u.start ≤ v.start := by
  induction t using induction_on_children with
  | step t ih =>
      rw [preorder_eq, preorders_eq_flatMap, List.pairwise_cons, List.pairwise_flatMap]
      refine ⟨fun u hu => ?_, fun c hc => ih c hc (h.below (child_mem_preorder hc)), ?_⟩
      · obtain ⟨c, hc, hu⟩ := List.mem_flatMap.mp hu
        exact (h.nested.inside (mem_preorder_of_child hc hu)).1
      · -- between two children lies the end of the first
        refine (h.inOrder t t.self_mem_preorder).imp_of_mem fun {c d} hc hd hcd u hu v hv => ?_
        have hu' := (h.nested.below (child_mem_preorder hc)).inside hu
        have hv' := (h.nested.below (child_mem_preorder hd)).inside hv
        obtain ⟨hu'', -⟩ := h.nested u (mem_preorder_of_child hc hu)
        omega

end Tree

end Concordance
