import Concordance.Chars.Case
import Mathlib.Data.List.Basic

/-!
# Lower case and places

Lower-casing goes through a text character by character, but it does not keep places: the capital
I with a dot becomes two characters, so that all that comes behind it moves by one. The lower-case
form of the character at `j` begins at `Chars.lowerPlace text j`, and every character of the
lower-cased text comes from one character of the text (`Chars.exists_comesFrom`), which has the same
place just if no dotted capital I stands before it (`Chars.ComesFrom.eq_iff`).

Nor does it look at one character only: a capital sigma depends on its neighbours. Every other
character has the same lower-case form by itself as in a text
(`Chars.lowerAt_eq_lower_singleton_iff`). A place is *kept* if the character there, lower-cased by
itself, is what the lower-cased text has at that place; up to the first dotted capital I that is so
but for sigmas at the end of a word (`Chars.kept_iff_of_undotted`).
-/

namespace Concordance.Chars

/-- The capital I with a dot above, the one character that has two in lower case. -/
def dottedI : Char := .ofNat 0x130

/-- The capital sigma, the one character whose lower-case form depends on its neighbours. -/
def capitalSigma : Char := .ofNat 0x3a3

/-- Whether the character at a place is a capital sigma that ends a word. -/
structure EndsWord (text : List Char) (i : Nat) : Prop where
  sigma : text[i]? = some capitalSigma
  before : nextIsCased (text.take i).reverse = true
  after : nextIsCased (text.drop (i + 1)) = false

/-! ### The lower-case form of one character -/

/-- The lower-case form of a character: a sigma by its neighbours, the dotted capital I with its dot
set apart, and any other by itself. -/
theorem lowerAt_eq (before : List Char) (c : Char) (after : List Char) :
    lowerAt before c after =
      if c = capitalSigma then
        if nextIsCased before && !nextIsCased after then [.ofNat 0x3c2] else [.ofNat 0x3c3]
      else if c = dottedI then ['i', .ofNat 0x307]
      else [lowerChar c] := by
  have hsigma : (c.toNat == 0x3a3) = true ↔ c = capitalSigma :=
    beq_iff_eq.trans (Char.toNat_inj (d := capitalSigma))
  have hdotted : (c.toNat == 0x130) = true ↔ c = dottedI :=
    beq_iff_eq.trans (Char.toNat_inj (d := dottedI))
  simp only [lowerAt, hsigma, hdotted]

/-- A character has one in lower case, the dotted capital I two. -/
theorem length_lowerAt (before : List Char) (c : Char) (after : List Char) :
    (lowerAt before c after).length = if c = dottedI then 2 else 1 := by
  rw [lowerAt_eq]
  by_cases hsigma : c = capitalSigma
  · have hne : c ≠ dottedI := hsigma ▸ by decide
    rw [if_pos hsigma, if_neg hne]
    split <;> rfl
  · rw [if_neg hsigma]
    split <;> rfl

/-- A character on its own has no neighbours that its lower case could depend on. -/
theorem lower_singleton (c : Char) : lower [c] = lowerAt [] c [] := by
  rw [lower, lowerAfter, lowerAfter, List.append_nil]

/-- A character by itself is lower-cased as it is in a text, unless it is a sigma at the end of a
word. -/
theorem lowerAt_eq_lower_singleton_iff {before after : List Char} {c : Char} :
    lowerAt before c after = lower [c] ↔
      ¬ (c = capitalSigma ∧ nextIsCased before = true ∧ nextIsCased after = false) := by
  rw [lower_singleton, lowerAt_eq, lowerAt_eq]
  by_cases hsigma : c = capitalSigma
  · rw [if_pos hsigma, if_pos hsigma]
    cases nextIsCased before <;> cases nextIsCased after <;> simp [hsigma, nextIsCased]
  · simp [hsigma]

/-! ### Places in the lower-cased text -/

/-- The place at which the lower-case form of the character at `j` begins: one further for each
dotted capital I before it. -/
def lowerPlace (text : List Char) (j : Nat) : Nat := j + (text.take j).count dottedI

/-- The character at `i` of the lower-cased text comes from the character `c` at `j` of the text. -/
structure ComesFrom (text : List Char) (i j : Nat) (c : Char) : Prop where
  source : text[j]? = some c
  place : i = lowerPlace text j ∨ c = dottedI ∧ i = lowerPlace text j + 1
  form : (lower text)[i]? =
    (lowerAt (text.take j).reverse c (text.drop (j + 1)))[i - lowerPlace text j]?

/-- The lower case of a character begins behind that of all characters before it. -/
theorem lowerPlace_cons_succ (c : Char) (text : List Char) (j : Nat) (before : List Char) :
    lowerPlace (c :: text) (j + 1) = (lowerAt before c text).length + lowerPlace text j := by
  rw [length_lowerAt, lowerPlace, lowerPlace, List.take_succ_cons, List.count_cons]
  by_cases hdotted : c = dottedI
  · rw [if_pos hdotted, if_pos (beq_iff_eq.mpr hdotted)]
    omega
  · rw [if_neg hdotted, if_neg (fun h => hdotted (beq_iff_eq.mp h))]
    omega

/-- The characters of a lower-cased text stem from one character each, whatever stands before. -/
theorem exists_source (before text : List Char) (i : Nat)
    (hi : i < (lowerAfter before text).length) :
    ∃ j c, text[j]? = some c ∧ lowerPlace text j ≤ i ∧
      i < lowerPlace text j +
        (lowerAt ((text.take j).reverse ++ before) c (text.drop (j + 1))).length ∧
      (lowerAfter before text)[i]? =
        (lowerAt ((text.take j).reverse ++ before) c
          (text.drop (j + 1)))[i - lowerPlace text j]? := by
  induction text generalizing before i with
  | nil => exact absurd hi (Nat.not_lt_zero i)
  | cons d text ih =>
      rw [lowerAfter] at hi ⊢
      by_cases hfirst : i < (lowerAt before d text).length
      · refine ⟨0, d, rfl, Nat.zero_le i, ?_, ?_⟩
        · simpa [lowerPlace] using hfirst
        · rw [List.getElem?_append_left hfirst]
          rfl
      · -- behind the first character: as in the rest of the text
        rw [List.length_append] at hi
        have hlater := Nat.le_of_not_lt hfirst
        obtain ⟨j, c, hc, hle, hlt, hform⟩ := ih (d :: before)
          (i - (lowerAt before d text).length) (by omega)
        have hplace := lowerPlace_cons_succ d text j before
        have hbefore : ((d :: text).take (j + 1)).reverse ++ before =
            (text.take j).reverse ++ d :: before := by simp
        refine ⟨j + 1, c, hc, by omega, ?_, ?_⟩
        · rw [hbefore, List.drop_succ_cons]
          omega
        · rw [List.getElem?_append_right hlater, hform, hbefore, List.drop_succ_cons, hplace,
            Nat.sub_add_eq]

/-- **Every character of the lower-cased text comes from one of the text.** -/
theorem exists_comesFrom {text : List Char} {i : Nat} (hi : i < (lower text).length) :
    ∃ j c, ComesFrom text i j c := by
  obtain ⟨j, c, hc, hle, hlt, hform⟩ := exists_source [] text i hi
  rw [List.append_nil] at hlt hform
  refine ⟨j, c, hc, ?_, hform⟩
  rw [length_lowerAt] at hlt
  split at hlt
  · next hdotted =>
      rcases Nat.eq_or_lt_of_le hle with heq | hgt
      · exact .inl heq.symm
      · exact .inr ⟨hdotted, by omega⟩
  · exact .inl (by omega)

variable {text : List Char} {i j : Nat} {c : Char}

/-- In lower case a character stands no nearer to the front than in the text. -/
theorem ComesFrom.le (h : ComesFrom text i j c) : j ≤ i := by
  have hplace := h.place
  unfold lowerPlace at hplace
  omega

/-- A character of the text is among the characters up to its place. -/
theorem ComesFrom.mem_take (h : ComesFrom text i j c) {n : Nat} (hn : j < n) : c ∈ text.take n := by
  refine List.mem_of_getElem? (i := j) ?_
  rw [List.getElem?_take_of_lt hn, h.source]

/-- A character has its own place in the lower-cased text just if no dotted capital I stands before
it. -/
theorem ComesFrom.eq_iff (h : ComesFrom text i j c) : j = i ↔ dottedI ∉ text.take i := by
  have hplace := h.place
  unfold lowerPlace at hplace
  constructor
  · rintro rfl
    exact List.count_eq_zero.mp (by omega)
  · intro hnone
    by_contra hne
    have hlt : j < i := Nat.lt_of_le_of_ne h.le hne
    have hcount : (text.take j).count dottedI = 0 :=
      List.count_eq_zero.mpr fun hmem => hnone ((List.take_prefix_take_left h.le).subset hmem)
    rcases hplace with hplace | ⟨rfl, -⟩
    · omega
    · exact hnone (h.mem_take hlt)

/-! ### Places that are kept -/

/-- The character at a place, lower-cased by itself, is what the lower-cased text has there. -/
def Kept (text : List Char) (i : Nat) : Prop :=
  ∃ c, text[i]? = some c ∧ (lower text)[i]?.toList = lower [c]

/-- **Up to the first dotted capital I** every place is kept, unless a sigma ends a word there. -/
theorem kept_iff_of_undotted (hi : i < (lower text).length) (hnone : dottedI ∉ text.take (i + 1)) :
    Kept text i ↔ ¬ EndsWord text i := by
  obtain ⟨j, c, hfrom⟩ := exists_comesFrom hi
  obtain rfl : j = i := hfrom.eq_iff.mpr fun hmem =>
    hnone ((List.take_prefix_take_left (Nat.le_succ i)).subset hmem)
  have hc : c ≠ dottedI := by
    rintro rfl
    exact hnone (hfrom.mem_take (Nat.lt_succ_self j))
  have hplace : j = lowerPlace text j := hfrom.place.resolve_right fun h => hc h.1
  have hform : (lower text)[j]?.toList = lowerAt (text.take j).reverse c (text.drop (j + 1)) := by
    rw [hfrom.form, ← hplace, Nat.sub_self]
    obtain ⟨d, hd⟩ := List.length_eq_one_iff.mp ((length_lowerAt _ c _).trans (if_neg hc))
    rw [hd]
    rfl
  constructor
  · rintro ⟨d, hd, hkept⟩ ⟨hsigma, hbefore, hafter⟩
    obtain rfl : c = d := Option.some.inj (hfrom.source.symm.trans hd)
    have hcsigma : c = capitalSigma := Option.some.inj (hd.symm.trans hsigma)
    exact lowerAt_eq_lower_singleton_iff.mp (hform.symm.trans hkept) ⟨hcsigma, hbefore, hafter⟩
  · intro hends
    refine ⟨c, hfrom.source, hform.trans (lowerAt_eq_lower_singleton_iff.mpr ?_)⟩
    rintro ⟨rfl, hbefore, hafter⟩
    exact hends ⟨hfrom.source, hbefore, hafter⟩

end Concordance.Chars
