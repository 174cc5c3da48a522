import Concordance.Extract.Member
import Mathlib.Data.List.Basic
import Mathlib.Data.List.Induction

/-!
# Names listed once

A list of names, each taken where it first occurs, has the same names (`Symbol.mem_distinct`), and they
stand in the order in which they first come (`Symbol.pairwise_distinct`). So none is in it twice.
-/

namespace Concordance.Symbol

/-- A name at the end is added if it was not there before. -/
theorem distinct_concat (names : List String) (name : String) :
    distinct (names ++ [name]) =
      if (distinct names).contains name then distinct names else distinct names ++ [name] := by
  rw [distinct, List.foldl_append]
  rfl

/-- The distinct names are all names. -/
theorem mem_distinct {names : List String} {name : String} :
    name ∈ distinct names ↔ name ∈ names := by
  induction names using List.reverseRecOn with
  | nil => exact Iff.rfl
  | append_singleton names last ih =>
      rw [distinct_concat, List.mem_append, ← ih, List.mem_singleton]
      split
      · next hseen =>
        rw [List.contains_iff_mem] at hseen
        constructor
        · exact .inl
        · rintro (h | rfl)
          · exact h
          · exact hseen
      · rw [List.mem_append, List.mem_singleton]

/-- One name stands before another if it comes first. -/
theorem pairwise_distinct (names : List String) :
    (distinct names).Pairwise fun a b => names.idxOf a < names.idxOf b := by
  induction names using List.reverseRecOn with
  | nil => exact .nil
  | append_singleton names last ih =>
      -- a name that was there before is found where it was
      have hkept : ∀ a ∈ distinct names, (names ++ [last]).idxOf a = names.idxOf a := by
        intro a ha
        exact List.idxOf_append_of_mem (mem_distinct.mp ha)
      have hold : (distinct names).Pairwise fun a b =>
          (names ++ [last]).idxOf a < (names ++ [last]).idxOf b := by
        refine ih.imp_of_mem ?_
        intro a b ha hb hab
        rw [hkept a ha, hkept b hb]
        exact hab
      rw [distinct_concat]
      split
      · exact hold
      · next hnew =>
        rw [List.contains_iff_mem, mem_distinct] at hnew
        rw [List.pairwise_append]
        refine ⟨hold, List.pairwise_singleton .., ?_⟩
        intro a ha b hb
        obtain rfl := List.mem_singleton.mp hb
        rw [hkept a ha, List.idxOf_append_of_notMem hnew]
        have := List.idxOf_lt_length_of_mem (mem_distinct.mp ha)
        omega

/-- Each name is listed once. -/
theorem nodup_distinct (names : List String) : (distinct names).Nodup := by
  refine (pairwise_distinct names).imp ?_
  rintro a b hab rfl
  exact Nat.lt_irrefl _ hab

end Concordance.Symbol
