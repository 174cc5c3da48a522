import Concordance.Proofs.Source.Point
import Concordance.Proofs.Tree.Place
import Mathlib.Data.List.Pairwise

/-!
# Trees in the order of their source

In the tree of a source children lie inside their parents and follow one another
(`Tree.Ordered`). Any two trees of it then stand one below the other, or one ends before the other
starts (`Tree.Ordered.below_or_apart`). Both can be told from positions, because positions of a source
are ordered as its bytes are (`Position.notAfter_inSource_iff`).
-/

namespace Concordance

/-! ### Positions -/

namespace Position

variable {source : Bytes} {a b : Nat}

/-- Positions are ordered as their bytes are. -/
theorem notAfter_inSource_iff (ha : a ≤ source.length) (hb : b ≤ source.length) :
    (inSource source a).notAfter (inSource source b) = true ↔ a ≤ b := by
  refine ⟨fun h => ?_, fun hab => notAfter_inSource hab hb⟩
  by_contra hlt
  have hle := Source.pointAt_le (Nat.le_of_not_le hlt) ha
  unfold notAfter inSource at h
  simp only [Bool.or_eq_true, Bool.and_eq_true, decide_eq_true_eq, beq_iff_eq] at h
  omega

/-- Two offsets have one position only if they are the same. -/
theorem inSource_inj : inSource source a = inSource source b ↔ a = b := by
  refine ⟨fun h => ?_, congrArg _⟩
  exact Int.ofNat_inj.mp (congrArg Position.byteOffset h)

end Position

namespace Tree

variable {limit : Nat} {t u v : Tree}

/-- The spans of a tree are nested, and of the children of a tree each ends before the next starts. -/
structure Ordered (limit : Nat) (t : Tree) : Prop where
  nested : t.Nested limit
  inOrder : ∀ u ∈ t.preorder, u.children.Pairwise fun c d => c.stop ≤ d.start

instance (limit : Nat) (t : Tree) : Decidable (t.Ordered limit) :=
  decidable_of_iff
    (t.Nested limit ∧ ∀ u ∈ t.preorder, u.children.Pairwise fun c d => c.stop ≤ d.start)
    ⟨fun h => ⟨h.1, h.2⟩, fun h => ⟨h.nested, h.inOrder⟩⟩

/-- Of two trees one ends before the other starts. -/
def Apart (u v : Tree) : Prop :=
  u.stop ≤ v.start ∨ v.stop ≤ u.start

/-- A tree below an ordered one is ordered. -/
theorem Ordered.below (h : t.Ordered limit) (hu : u ∈ t.preorder) : u.Ordered limit :=
  ⟨h.nested.below hu, fun v hv => h.inOrder v (mem_preorder_trans hu hv)⟩

/-- What stands below trees that are apart is apart. -/
theorem Apart.below {c d : Tree} (h : c.Apart d) (hc : c.Nested limit) (hd : d.Nested limit)
    (hu : u ∈ c.preorder) (hv : v ∈ d.preorder) : u.Apart v := by
  have hinside := hc.inside hu
  have hinside' := hd.inside hv
  unfold Apart at h ⊢
  omega

/-- Two children of a tree are one, or they are apart. -/
theorem Ordered.eq_or_apart (h : t.Ordered limit) {c d : Tree} (hc : c ∈ t.children)
    (hd : d ∈ t.children) : c = d ∨ c.Apart d := by
  have : Std.Symm Apart := ⟨fun _ _ => Or.symm⟩
  by_cases heq : c = d
  · exact .inl heq
  · exact .inr (((h.inOrder t t.self_mem_preorder).imp .inl).forall hc hd heq)

/-- **Two trees of one source** stand one below the other, or they are apart. -/
theorem Ordered.below_or_apart (h : t.Ordered limit) (hu : u ∈ t.preorder) (hv : v ∈ t.preorder) :
    u ∈ v.preorder ∨ v ∈ u.preorder ∨ u.Apart v := by
  induction t using induction_on_children with
  | step t ih =>
      rcases mem_preorder_iff.mp hu with rfl | ⟨c, hc, huc⟩
      · exact .inr (.inl hv)
      · rcases mem_preorder_iff.mp hv with rfl | ⟨d, hd, hvd⟩
        · exact .inl hu
        · have hordered := h.below (child_mem_preorder hc)
          rcases h.eq_or_apart hc hd with rfl | hapart
          · exact ih c hc hordered huc hvd
          · exact .inr (.inr (hapart.below hordered.nested
              (h.below (child_mem_preorder hd)).nested huc hvd))

end Tree

/-- Spans of trees contain one another as their bytes do. -/
theorem Span.contains_ofTree_iff {source : Bytes} {u v : Tree} (hu : u.Nested source.length)
    (hv : v.Nested source.length) :
    (ofTree source u).contains (ofTree source v) = true ↔ u.start ≤ v.start ∧ v.stop ≤ u.stop := by
  obtain ⟨hle, hlimit, -⟩ := hu u u.self_mem_preorder
  obtain ⟨hle', hlimit', -⟩ := hv v v.self_mem_preorder
  rw [contains, Bool.and_eq_true]
  unfold ofTree
  rw [Position.notAfter_inSource_iff (by omega) (by omega),
    Position.notAfter_inSource_iff hlimit' hlimit]

end Concordance
