import Concordance.Chars.Case
import Mathlib.Data.List.Forall2

/-!
# Matching without regard to case

Two characters match if their case keys are equal. For an ASCII character this leaves few others
(`Chars.same_iff_mem_spellings`): a letter has its capital, and beyond ASCII there are a long s, an i
with and without its dot, and the Kelvin sign. So a word opens a text without regard to case just if
the text starts with the word, each character in one of its *spellings*
(`Chars.startsIgnoringCase_iff`).
-/

namespace Concordance.Chars

/-! ### Lower-case forms in ASCII -/

/-- Beyond ASCII a lower-case form is as far from the code point as its run says; without a run it is
the code point. -/
theorem lowerCode_cases {n : Nat} (hn : 128 ≤ n) :
    lowerCode n = n ∨ ∃ r ∈ lowerRuns, r.1 ≤ n ∧ n ≤ r.2.1 ∧
      lowerCode n = ((n : Int) + r.2.2.2).toNat := by
  unfold lowerCode
  rw [if_neg (by omega)]
  split
  · next r hr =>
      have hfound := List.find?_some hr
      simp only [Bool.and_eq_true, decide_eq_true_eq] at hfound
      exact .inr ⟨r, List.mem_of_find?_eq_some hr, hfound.1.1, hfound.1.2, rfl⟩
  · exact .inl rfl

/-- Only two code points beyond ASCII have a lower-case form in ASCII: the capital I with a dot and
the Kelvin sign. -/
theorem of_lowerCode_lt {n : Nat} (h : lowerCode n < 128) : n < 128 ∨ n = 0x130 ∨ n = 0x212a := by
  have hruns : lowerRuns.all (fun r => 128 ≤ (r.1 : Int) + r.2.2.2 ||
      (r.1 == 0x130 && r.2.1 == 0x130) || (r.1 == 0x212a && r.2.1 == 0x212a)) = true := by
    decide +kernel
  by_cases hn : n < 128
  · exact .inl hn
  · rcases lowerCode_cases (Nat.le_of_not_lt hn) with hself | ⟨r, hr, hfirst, hlast, hlower⟩
    · omega
    · have hrun := List.all_eq_true.mp hruns r hr
      simp only [Bool.or_eq_true, Bool.and_eq_true, decide_eq_true_eq, beq_iff_eq] at hrun
      omega

/-- The i without a dot and the long s are the lower-case form of themselves only. -/
theorem eq_of_lowerCode_eq {n l : Nat} (hl : l = 0x131 ∨ l = 0x17f) (h : lowerCode n = l) :
    n = l := by
  have hruns : lowerRuns.all (fun r => [(0x131 : Int), 0x17f].all fun l =>
      (r.2.1 : Int) + r.2.2.2 < l || l < (r.1 : Int) + r.2.2.2) = true := by decide +kernel
  by_cases hn : n < 128
  · have hascii : lowerCode n < 128 := by
      unfold lowerCode
      rw [if_pos hn]
      split
      · next hupper =>
          simp only [Bool.and_eq_true, decide_eq_true_eq] at hupper
          omega
      · exact hn
    omega
  · rcases lowerCode_cases (Nat.le_of_not_lt hn) with hself | ⟨r, hr, hfirst, hlast, hlower⟩
    · omega
    · have hrun := List.all_eq_true.mp hruns r hr
      simp only [List.all_cons, List.all_nil, Bool.and_true, Bool.or_eq_true, Bool.and_eq_true,
        decide_eq_true_eq] at hrun
      omega

/-- The code points with a key in ASCII: besides those with a lower-case form there, the i without a
dot and the long s. -/
theorem of_caseKey_lt {n : Nat} (h : caseKey n < 128) :
    caseKey n = lowerCode n ∨ n = 0x131 ∧ caseKey n = 105 ∨ n = 0x17f ∧ caseKey n = 115 := by
  have hkeys : caseKeys.all (fun p => 128 ≤ p.2 || p == (0x131, 105) || p == (0x17f, 115)) = true := by
    decide
  unfold caseKey at h ⊢
  dsimp only at h ⊢
  split at h
  · next hlower => exact .inl (if_pos hlower)
  · next hlower =>
      rw [if_neg hlower] at *
      cases hlookup : caseKeys.lookup (lowerCode n) with
      | none => exact .inl rfl
      | some k =>
          rw [hlookup] at h
          obtain ⟨before, after, hsplit, -⟩ := List.lookup_eq_some_iff.mp hlookup
          have hmem : (lowerCode n, k) ∈ caseKeys := by
            rw [hsplit]
            exact List.mem_append_right _ List.mem_cons_self
          have hkey := List.all_eq_true.mp hkeys _ hmem
          simp only [Bool.or_eq_true, decide_eq_true_eq, beq_iff_eq, Prod.mk.injEq] at hkey
          rcases hkey with (hbig | ⟨hi, rfl⟩) | ⟨hs, rfl⟩
          · exact absurd h (Nat.not_lt.mpr hbig)
          · exact .inr (.inl ⟨hi ▸ eq_of_lowerCode_eq (.inl hi) rfl, rfl⟩)
          · exact .inr (.inr ⟨hs ▸ eq_of_lowerCode_eq (.inr hs) rfl, rfl⟩)

/-! ### Spellings -/

/-- The ways to write an ASCII character that is no capital, case set aside: itself, its capital, for
the letters i, k and s also the i with a dot in the capital and without one in the small letter, the
Kelvin sign, and the long s. -/
def spellings (c : Char) : List Char :=
  c :: c.toUpper ::
    (if c = 'i' then [.ofNat 0x130, .ofNat 0x131]
    else if c = 'k' then [.ofNat 0x212a]
    else if c = 's' then [.ofNat 0x17f]
    else [])

/-- An ASCII character that is no capital. -/
def isSmall (c : Char) : Bool := c.toNat < 128 && !c.isUpper

/-- A character is small if it is ASCII and no capital. -/
theorem isSmall_iff {c : Char} : isSmall c = true ↔ c.toNat < 128 ∧ c.isUpper = false := by
  simp [isSmall]

/-- A property of all ASCII characters, checked one by one. -/
theorem of_all_ascii {p : Char → Bool} (hall : ((List.range 128).map Char.ofNat).all p = true)
    {c : Char} (hc : c.toNat < 128) : p c = true :=
  List.all_eq_true.mp hall c
    (List.mem_map.mpr ⟨c.toNat, List.mem_range.mpr hc, Char.ofNat_toNat c⟩)

/-- A small character is its own key. -/
theorem caseKey_of_isSmall {c : Char} (hc : isSmall c = true) : caseKey c.toNat = c.toNat := by
  obtain ⟨hascii, hsmall⟩ := isSmall_iff.mp hc
  have hkey := of_all_ascii (p := fun c => c.isUpper || caseKey c.toNat == c.toNat)
    (by decide +kernel) hascii
  simpa [hsmall] using hkey

/-- A character whose lower case is ASCII is a spelling of that lower case. -/
theorem mem_spellings_lowerCode {d : Char} (hd : lowerCode d.toNat < 128) :
    d ∈ spellings (.ofNat (lowerCode d.toNat)) := by
  rcases of_lowerCode_lt hd with hascii | hdotted | hkelvin
  · have hmem := of_all_ascii (p := fun d => (spellings (.ofNat (lowerCode d.toNat))).contains d)
      (by decide +kernel) hascii
    exact List.contains_iff_mem.mp hmem
  · obtain rfl : d = .ofNat 0x130 := Char.toNat_inj.mp hdotted
    decide +kernel
  · obtain rfl : d = .ofNat 0x212a := Char.toNat_inj.mp hkelvin
    decide +kernel

/-- **The characters that match an ASCII character** that is no capital are its spellings. -/
theorem same_iff_mem_spellings {c d : Char} (hc : isSmall c = true) :
    sameIgnoringCase c d = true ↔ d ∈ spellings c := by
  obtain ⟨hascii, hsmall⟩ := isSmall_iff.mp hc
  constructor
  · intro h
    have hkey : c.toNat = caseKey d.toNat := (caseKey_of_isSmall hc).symm.trans (beq_iff_eq.mp h)
    have hchar : c = .ofNat (caseKey d.toNat) := hkey ▸ (Char.ofNat_toNat c).symm
    rcases of_caseKey_lt (hkey ▸ hascii) with hlower | ⟨hi, hkey'⟩ | ⟨hs, hkey'⟩
    · rw [hchar, hlower]
      exact mem_spellings_lowerCode (hlower ▸ hkey ▸ hascii)
    · obtain rfl : d = .ofNat 0x131 := Char.toNat_inj.mp hi
      rw [hchar, hkey']
      decide
    · obtain rfl : d = .ofNat 0x17f := Char.toNat_inj.mp hs
      rw [hchar, hkey']
      decide
  · intro h
    have hall := of_all_ascii
      (p := fun c => c.isUpper || (spellings c).all fun d => sameIgnoringCase c d)
      (by decide +kernel) hascii
    rw [hsmall, Bool.false_or] at hall
    exact List.all_eq_true.mp hall d h

/-- A text is a word, each character in one of its spellings. -/
def Spells (word text : List Char) : Prop :=
  List.Forall₂ (fun c d => d ∈ spellings c) word text

/-- A word opens a text without regard to case just if the text starts with a spelling of it. -/
theorem startsIgnoringCase_iff {word cs : List Char} (hword : word.all isSmall = true) :
    startsIgnoringCase word cs = true ↔ ∃ start, start <+: cs ∧ Spells word start := by
  induction word generalizing cs with
  | nil => exact iff_of_true rfl ⟨[], List.nil_prefix, .nil⟩
  | cons c word ih =>
      rw [List.all_cons, Bool.and_eq_true] at hword
      obtain ⟨hc, hword⟩ := hword
      cases cs with
      | nil =>
          refine iff_of_false Bool.false_ne_true ?_
          rintro ⟨start, hstart, hspells⟩
          rw [List.prefix_nil.mp hstart] at hspells
          cases hspells
      | cons d cs =>
          rw [startsIgnoringCase, Bool.and_eq_true, same_iff_mem_spellings hc, ih hword]
          constructor
          · rintro ⟨hd, start, hstart, hspells⟩
            exact ⟨d :: start, (List.prefix_cons_inj d).mpr hstart, .cons hd hspells⟩
          · rintro ⟨start, hstart, hspells⟩
            cases hspells with
            | cons hd hspells =>
                obtain ⟨rfl, hrest⟩ := List.cons_prefix_cons.mp hstart
                exact ⟨hd, _, hrest, hspells⟩

end Concordance.Chars
