import Concordance.Chars.Basic
import Mathlib.Data.List.Infix
import Mathlib.Data.Nat.Find

/-!
# Where a text first occurs

A text occurs at an offset of another if it opens what stands there. `Chars.find?` gives the first
such offset (`Chars.find?_eq_some_iff`), and none just if the text is no part of the other
(`Chars.find?_eq_none_iff`). Read from the end, the first occurrence is the last, at which
`Chars.splitLast` cuts (`Chars.splitLast_of_cutLast`).
-/

namespace Concordance.Chars

/-- `needle` occurs at an offset of a text, and at none before it. -/
structure FirstAt (needle cs : List Char) (n : Nat) : Prop where
  here : needle <+: cs.drop n
  first : ∀ m < n, ¬ needle <+: cs.drop m

variable {needle cs : List Char} {n : Nat}

/-- What a text begins with occurs first at its beginning. -/
theorem firstAt_zero (h : needle <+: cs) : FirstAt needle cs 0 :=
  ⟨h, fun _ hm => absurd hm (Nat.not_lt_zero _)⟩

/-- One more character in front moves the first occurrence by one, unless there is one right
there. -/
theorem firstAt_cons_succ {c : Char} (h : ¬ needle <+: c :: cs) :
    FirstAt needle (c :: cs) (n + 1) ↔ FirstAt needle cs n := by
  constructor
  · rintro ⟨hhere, hfirst⟩
    exact ⟨hhere, fun m hm => hfirst (m + 1) (Nat.succ_lt_succ hm)⟩
  · rintro ⟨hhere, hfirst⟩
    refine ⟨hhere, fun m hm => ?_⟩
    cases m with
    | zero => exact h
    | succ m => exact hfirst m (Nat.lt_of_succ_lt_succ hm)

/-- It does not occur first anywhere else. -/
theorem not_firstAt_succ (h : needle <+: cs) : ¬ FirstAt needle cs (n + 1) :=
  fun hn => hn.first 0 (Nat.succ_pos n) h

/-- A first occurrence lies inside the text. -/
theorem FirstAt.add_length_le (h : FirstAt needle cs n) : n + needle.length ≤ cs.length := by
  have hlen := h.here.length_le
  rw [List.length_drop] at hlen
  by_cases hn : n ≤ cs.length
  · omega
  · -- past the end only the empty text occurs, and that one occurs at the front
    have hempty : needle = [] := List.eq_nil_of_length_eq_zero (by omega)
    exact absurd (hempty ▸ List.nil_prefix) (h.first 0 (by omega))

/-- What is found lies as far behind the offset as the first occurrence behind the front. -/
theorem findFrom_eq_some_iff (offset : Nat) :
    findFrom needle cs offset = some n ↔ ∃ m, n = offset + m ∧ FirstAt needle cs m := by
  induction cs generalizing offset with
  | nil =>
      rw [findFrom]
      cases needle with
      | nil =>
          constructor
          · rintro ⟨⟩
            exact ⟨0, rfl, firstAt_zero List.nil_prefix⟩
          · rintro ⟨m, rfl, hm⟩
            have hzero := hm.add_length_le
            simp at hzero
            simp [hzero]
      | cons c needle =>
          constructor
          · rintro ⟨⟩
          · rintro ⟨m, -, hm⟩
            have hlen := hm.add_length_le
            simp at hlen
  | cons c cs ih =>
      rw [findFrom]
      by_cases hhere : needle <+: c :: cs
      · rw [if_pos (List.isPrefixOf_iff_prefix.mpr hhere)]
        constructor
        · rintro ⟨⟩
          exact ⟨0, rfl, firstAt_zero hhere⟩
        · rintro ⟨m, rfl, hm⟩
          cases m with
          | zero => rfl
          | succ m => exact absurd hm (not_firstAt_succ hhere)
      · rw [if_neg (fun h => hhere (List.isPrefixOf_iff_prefix.mp h)), ih]
        constructor
        · rintro ⟨m, rfl, hm⟩
          exact ⟨m + 1, by omega, (firstAt_cons_succ hhere).mpr hm⟩
        · rintro ⟨m, rfl, hm⟩
          cases m with
          | zero => exact absurd hm.here hhere
          | succ m => exact ⟨m, by omega, (firstAt_cons_succ hhere).mp hm⟩

/-- **What is found is the first occurrence.** -/
theorem find?_eq_some_iff : find? needle cs = some n ↔ FirstAt needle cs n := by
  rw [find?, findFrom_eq_some_iff]
  simp

/-- A text occurs in another just if it occurs somewhere first. -/
theorem infix_iff_exists_firstAt : needle <:+: cs ↔ ∃ n, FirstAt needle cs n := by
  rw [List.infix_iff_prefix_suffix]
  constructor
  · rintro ⟨rest, hrest, hsuffix⟩
    have hsome : ∃ n, needle <+: cs.drop n :=
      ⟨cs.length - rest.length, List.suffix_iff_eq_drop.mp hsuffix ▸ hrest⟩
    exact ⟨Nat.find hsome, Nat.find_spec hsome, fun _ hm => Nat.find_min hsome hm⟩
  · rintro ⟨n, hn⟩
    exact ⟨cs.drop n, hn.here, List.drop_suffix n cs⟩

/-- **Nothing is found** just if the text does not occur. -/
theorem find?_eq_none_iff : find? needle cs = none ↔ ¬ needle <:+: cs := by
  rw [Option.eq_none_iff_forall_ne_some, infix_iff_exists_firstAt, not_exists]
  exact forall_congr' fun n => not_congr find?_eq_some_iff

/-! ### The last occurrence -/

/-- A text cut at an occurrence of `sep` that has no other behind it. -/
structure CutLast (sep cs front back : List Char) : Prop where
  cut : cs = front ++ sep ++ back
  last : ∀ front' back', cs = front' ++ sep ++ back' → front'.length ≤ front.length

variable {sep front back : List Char}

/-- Read from the end, the last occurrence comes first. -/
theorem CutLast.firstAt_reverse (h : CutLast sep cs front back) :
    FirstAt sep.reverse cs.reverse back.length := by
  have hreverse : cs.reverse = back.reverse ++ (sep.reverse ++ front.reverse) := by
    rw [h.cut, List.reverse_append, List.reverse_append]
  refine ⟨?_, ?_⟩
  · rw [hreverse, List.drop_left' List.length_reverse]
    exact List.prefix_append ..
  · intro m hm hprefix
    obtain ⟨rest, hrest⟩ := hprefix
    have hwhole : cs = rest.reverse ++ sep ++ (cs.reverse.take m).reverse := by
      rw [← List.reverse_inj, List.reverse_append, List.reverse_append, List.reverse_reverse,
        List.reverse_reverse, hrest, List.take_append_drop]
    have hle := h.last _ _ hwhole
    have hlength := congrArg List.length hwhole
    rw [h.cut] at hlength
    simp only [List.length_append, List.length_reverse, List.length_take] at hle hlength
    omega

/-- A text is split where the separator occurs last. -/
theorem splitLast_of_cutLast (h : CutLast sep cs front back) : splitLast sep cs = (front, back) := by
  have hfind : find? sep.reverse cs.reverse = some back.length :=
    find?_eq_some_iff.mpr h.firstAt_reverse
  have hlength : cs.length = front.length + sep.length + back.length := by
    rw [h.cut, List.length_append, List.length_append]
  have hfront : cs.length - back.length - sep.length = front.length := by omega
  have hback : cs.length - back.length = (front ++ sep).length := by
    rw [List.length_append]
    omega
  rw [splitLast, hfind]
  dsimp only
  rw [hfront, hback, h.cut, List.drop_left, List.append_assoc, List.take_left]

/-- A text without the separator is not split. -/
theorem splitLast_of_absent (h : ¬ sep <:+: cs) : splitLast sep cs = ([], cs) := by
  have hfind : find? sep.reverse cs.reverse = none := by
    rw [find?_eq_none_iff, List.reverse_infix]
    exact h
  rw [splitLast, hfind]

/-- A text that occurs has a last occurrence. -/
theorem exists_cutLast (h : sep <:+: cs) : ∃ front back, CutLast sep cs front back := by
  obtain ⟨n, hn⟩ := infix_iff_exists_firstAt.mp (List.reverse_infix.mpr h)
  obtain ⟨rest, hrest⟩ := hn.here
  refine ⟨rest.reverse, (cs.reverse.take n).reverse, ?_, ?_⟩
  · rw [← List.reverse_inj, List.reverse_append, List.reverse_append, List.reverse_reverse,
      List.reverse_reverse, hrest, List.take_append_drop]
  · intro front' back' hcut
    apply Nat.le_of_not_lt
    intro hlt
    have hreverse : cs.reverse = back'.reverse ++ (sep.reverse ++ front'.reverse) := by
      rw [hcut, List.reverse_append, List.reverse_append]
    have hlength := congrArg List.length hrest
    have hlength' := congrArg List.length hreverse
    simp only [List.length_append, List.length_reverse, List.length_drop] at hlt hlength hlength'
    apply hn.first back'.length (by omega)
    rw [hreverse, List.drop_left' List.length_reverse]
    exact List.prefix_append ..

/-- What stands before a text does not matter for its last cut. -/
theorem CutLast.under (h : CutLast sep cs front back) (above : List Char) :
    CutLast sep (above ++ cs) (above ++ front) back := by
  refine ⟨by rw [h.cut, List.append_assoc, List.append_assoc, List.append_assoc], ?_⟩
  intro front' back' hcut
  rw [List.append_assoc] at hcut
  rcases List.append_eq_append_iff.mp hcut with ⟨more, rfl, hcs⟩ | ⟨more, rfl, -⟩
  · have hle := h.last more back' (by rw [hcs, List.append_assoc])
    rw [List.length_append, List.length_append]
    omega
  · rw [List.length_append, List.length_append]
    omega

/-- A pair of colons is the last one if none follows it, not even one that shares a colon with it. -/
theorem cutLast_colons (above : List Char) (h : ¬ [':', ':'] <:+: ':' :: cs) :
    CutLast [':', ':'] (above ++ [':', ':'] ++ cs) above cs := by
  refine ⟨rfl, ?_⟩
  intro front' back' hcut
  apply Nat.le_of_not_lt
  intro hlt
  apply h
  rw [List.append_assoc, List.append_assoc] at hcut
  rcases List.append_eq_append_iff.mp hcut with ⟨more, rfl, hmore⟩ | ⟨more, rfl, -⟩
  · cases more with
    | nil => simp at hlt
    | cons c more =>
        have htail : ':' :: cs = more ++ ([':', ':'] ++ back') := (List.cons.inj hmore).2
        rw [htail]
        exact ⟨more, back', by rw [List.append_assoc]⟩
  · rw [List.length_append] at hlt
    omega

end Concordance.Chars
