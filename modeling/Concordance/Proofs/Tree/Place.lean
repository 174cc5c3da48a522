import Concordance.Tree.Walk

/-!
# What stands below a tree, and where a walk comes to

A tree stands below another if it is in its pre-order; this is reflexive and transitive, and a child
stands below its parent. A node belongs to a tree (`Node.Of`) if it is reached from the tree's root by
going to children. Every node that a walk visits belongs to the tree that is walked, so its tree
stands below the root and is a child of its parent's tree.

In a tree whose spans are nested (`Tree.Nested`) what stands below a tree lies inside it.
-/

namespace Concordance

namespace Tree

/-- **Induction on trees.** What holds of a tree as soon as it holds of its children holds of every
tree. -/
theorem induction_on_children {P : Tree → Prop} (step : ∀ t, (∀ c ∈ t.children, P c) → P t)
    (t : Tree) : P t :=
  step t fun c hc =>
    have : c.size < t.size := size_lt_of_mem hc
    induction_on_children step c
termination_by t.size

/-- The trees below some trees are those below each. -/
theorem mem_preorders {ts : List Tree} {u : Tree} :
    u ∈ preorders ts ↔ ∃ t ∈ ts, u ∈ t.preorder := by
  induction ts with
  | nil => simp [preorders]
  | cons t ts ih => simp [preorders, ih]

theorem preorders_append (ts us : List Tree) :
    preorders (ts ++ us) = preorders ts ++ preorders us := by
  induction ts with
  | nil => rfl
  | cons t ts ih => rw [List.cons_append, preorders, preorders, ih, List.append_assoc]

/-- A tree comes before what stands below it. -/
theorem preorder_eq (t : Tree) : t.preorder = t :: preorders t.children := by
  cases t with
  | node info children => rw [preorder, Tree.children]

/-- What stands below a tree is the tree itself or stands below one of its children. -/
theorem mem_preorder_iff {t u : Tree} :
    u ∈ t.preorder ↔ u = t ∨ ∃ c ∈ t.children, u ∈ c.preorder := by
  rw [preorder_eq, List.mem_cons, mem_preorders]

theorem self_mem_preorder (t : Tree) : t ∈ t.preorder :=
  mem_preorder_iff.mpr (Or.inl rfl)

theorem mem_preorder_of_child {t c u : Tree} (hc : c ∈ t.children) (hu : u ∈ c.preorder) :
    u ∈ t.preorder :=
  mem_preorder_iff.mpr (Or.inr ⟨c, hc, hu⟩)

theorem child_mem_preorder {t c : Tree} (hc : c ∈ t.children) : c ∈ t.preorder :=
  mem_preorder_of_child hc c.self_mem_preorder

/-- What stands below something below a tree stands below the tree. -/
theorem mem_preorder_trans {t u v : Tree} (hu : u ∈ t.preorder) (hv : v ∈ u.preorder) :
    v ∈ t.preorder := by
  induction t using induction_on_children with
  | step t ih =>
      rcases mem_preorder_iff.mp hu with rfl | ⟨c, hc, hu⟩
      · exact hv
      · exact mem_preorder_of_child hc (ih c hc hu)

/-- Every tree of a tree ends before the limit and not before it starts, and its children lie inside
it. -/
def Nested (limit : Nat) (t : Tree) : Prop :=
  ∀ u ∈ t.preorder, u.start ≤ u.stop ∧ u.stop ≤ limit ∧
    ∀ c ∈ u.children, u.start ≤ c.start ∧ c.stop ≤ u.stop

instance (limit : Nat) (t : Tree) : Decidable (t.Nested limit) :=
  inferInstanceAs (Decidable (∀ u ∈ t.preorder, _))

variable {limit : Nat}

/-- A tree below a nested one is nested. -/
theorem Nested.below {t u : Tree} (h : t.Nested limit) (hu : u ∈ t.preorder) : u.Nested limit :=
  fun v hv => h v (mem_preorder_trans hu hv)

/-- What stands below a tree lies inside it. -/
theorem Nested.inside {t u : Tree} (h : t.Nested limit) (hu : u ∈ t.preorder) :
    t.start ≤ u.start ∧ u.stop ≤ t.stop := by
  induction t using induction_on_children with
  | step t ih =>
      rcases mem_preorder_iff.mp hu with rfl | ⟨c, hc, hu⟩
      · exact ⟨Nat.le_refl _, Nat.le_refl _⟩
      · obtain ⟨-, -, hchildren⟩ := h t t.self_mem_preorder
        have hchild := hchildren c hc
        have hbelow := ih c hc (h.below (child_mem_preorder hc)) hu
        omega

end Tree

namespace Node

/-- A node of a tree: the root, or a child of a node of the tree. -/
inductive Of (t : Tree) : Node → Prop where
  | root : Of t (.root t)
  | child {n c : Node} : Of t n → c ∈ n.children → Of t c

/-- A placed child is a child of its parent. -/
theorem parent?_of_mem_placed {n c : Node} {before rest : List Tree} (h : c ∈ n.placed before rest) :
    c.parent? = some n ∧ c.tree ∈ rest := by
  induction rest generalizing before with
  | nil => cases h
  | cons t rest ih =>
      rcases List.mem_cons.mp h with rfl | h
      · exact ⟨rfl, List.mem_cons_self⟩
      · obtain ⟨hparent, hmem⟩ := ih h
        exact ⟨hparent, List.mem_cons_of_mem t hmem⟩

/-- A node of a tree stands below it. -/
theorem Of.tree_mem_preorder {t : Tree} {n : Node} (h : Of t n) : n.tree ∈ t.preorder := by
  induction h with
  | root => exact t.self_mem_preorder
  | child hn hc ih =>
      have hmem := (parent?_of_mem_placed hc).2
      exact Tree.mem_preorder_trans ih (Tree.child_mem_preorder hmem)

/-- The parent of a node of a tree is one too. -/
theorem Of.parent {t : Tree} {n p : Node} (h : Of t n) (hp : n.parent? = some p) :
    Of t p ∧ n.tree ∈ p.tree.children := by
  cases h with
  | root => cases hp
  | child hn hc =>
      obtain ⟨hparent, hmem⟩ := parent?_of_mem_placed hc
      cases hparent.symm.trans hp
      exact ⟨hn, hmem⟩

/-- A walk meets nodes of the tree only. -/
theorem of_mem_walkStack {t : Tree} {stack : List Node} (hstack : ∀ n ∈ stack, Of t n) {n : Node}
    (h : n ∈ walkStack stack) : Of t n := by
  fun_induction walkStack stack with
  | case1 => cases h
  | case2 m rest ih =>
      obtain ⟨hm, hrest⟩ := List.forall_mem_cons.mp hstack
      rcases List.mem_cons.mp h with rfl | h
      · exact hm
      · exact ih (List.forall_mem_append.mpr ⟨fun c hc => .child hm hc, hrest⟩) h

/-- **A walk stays in its tree.** -/
theorem of_mem_walk {t : Tree} {n : Node} (h : n ∈ (Node.root t).walk) : Of t n :=
  of_mem_walkStack (fun _ hm => List.mem_singleton.mp hm ▸ .root) h

end Node

end Concordance
