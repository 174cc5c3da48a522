import Concordance.Proofs.Tree.Preorder

/-!
# What stands above a node

A node stands above another if one comes to it by going up (`Node.IsAbove`). It then precedes it in
document order, so that a walk visits it before (`Node.IsAbove.mem_before`); and the tree of the node
below stands below its tree.

If every child lies inside its parent (`Tree.Inside`), all that stands below a tree lies inside it.
-/

namespace Concordance

namespace Tree

/-- Every child of a tree lies inside its parent. -/
def Inside (t : Tree) : Prop :=
  ∀ u ∈ t.preorder, ∀ c ∈ u.children, u.start ≤ c.start ∧ c.stop ≤ u.stop

instance (t : Tree) : Decidable t.Inside :=
  inferInstanceAs (Decidable (∀ u ∈ t.preorder, _))

/-- What stands below a tree lies inside it. -/
theorem Inside.le {t u v : Tree} (h : t.Inside) (hu : u ∈ t.preorder) (hv : v ∈ u.preorder) :
    u.start ≤ v.start ∧ v.stop ≤ u.stop := by
  induction u using induction_on_children with
  | step u ih =>
      rcases mem_preorder_iff.mp hv with rfl | ⟨c, hc, hv⟩
      · exact ⟨Nat.le_refl _, Nat.le_refl _⟩
      · have hchild := h u hu c hc
        have hbelow := ih c hc (mem_preorder_trans hu (child_mem_preorder hc)) hv
        omega

end Tree

namespace Node

/-- One node stands above another: it is the parent, or stands above the parent. -/
inductive IsAbove (a : Node) : Node → Prop where
  | parent {n : Node} : n.parent? = some a → IsAbove a n
  | step {n p : Node} : n.parent? = some p → IsAbove a p → IsAbove a n

variable {t : Tree} {a n : Node}

/-- The ancestors on the way up from a node stand above it. -/
theorem isAbove_of_suffix {x : Ancestor} {rest above : List Ancestor} (h : x :: rest <:+ above)
    (u : Tree) : IsAbove ⟨x.tree, rest⟩ ⟨u, above⟩ := by
  induction above generalizing u with
  | nil => cases List.suffix_nil.mp h
  | cons y above ih =>
      rcases List.suffix_cons_iff.mp h with heq | h
      · cases heq
        exact .parent rfl
      · exact .step rfl (ih h y.tree)

/-- A tree stands below all that stands above it. -/
theorem IsAbove.mem_preorder (h : IsAbove a n) (hn : Of t n) :
    Of t a ∧ n.tree ∈ a.tree.preorder := by
  induction h with
  | parent hp =>
      obtain ⟨ha, hchild⟩ := hn.parent hp
      exact ⟨ha, Tree.child_mem_preorder hchild⟩
  | step hp _ ih =>
      obtain ⟨hp, hchild⟩ := hn.parent hp
      obtain ⟨ha, hbelow⟩ := ih hp
      exact ⟨ha, Tree.mem_preorder_trans hbelow (Tree.child_mem_preorder hchild)⟩

/-- The way to a node is one step longer than that to its parent. -/
theorem exists_way_of_parent? {p : Node} (h : n.parent? = some p) : ∃ k, n.way = p.way ++ [k] := by
  obtain ⟨u, above⟩ := n
  cases above with
  | nil => cases h
  | cons x above =>
      cases h
      exact ⟨x.earlier.length, way_placed ⟨x.tree, above⟩ u x.earlier⟩

/-- The way to a node goes on from what stands above it. -/
theorem IsAbove.exists_way (h : IsAbove a n) : ∃ k on, n.way = a.way ++ k :: on := by
  induction h with
  | parent hp =>
      obtain ⟨k, hk⟩ := exists_way_of_parent? hp
      exact ⟨k, [], hk⟩
  | step hp _ ih =>
      obtain ⟨k, hk⟩ := exists_way_of_parent? hp
      obtain ⟨j, on, hon⟩ := ih
      exact ⟨j, on ++ [k], by rw [hk, hon, List.append_assoc, List.cons_append]⟩

/-- **What stands above a node is visited before it.** -/
theorem IsAbove.mem_before (h : IsAbove a n) {before after : List Node}
    (hwalk : (Node.root t).walk = before ++ n :: after) : a ∈ before := by
  have hn : Of t n := of_mem_walk (hwalk ▸ by simp)
  obtain ⟨ha, -⟩ := h.mem_preorder hn
  obtain ⟨k, on, hway⟩ := h.exists_way
  exact (precedes_of_way hway).mem_before ha hwalk

end Node

end Concordance
