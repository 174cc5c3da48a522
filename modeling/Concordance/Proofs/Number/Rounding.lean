import Concordance.Number
import Mathlib.Algebra.Order.Field.Power
import Mathlib.Data.Int.Log
import Mathlib.Data.Rat.Floor
import Mathlib.Tactic.FieldSimp
import Mathlib.Tactic.Linarith
import Mathlib.Tactic.NormNum
import Mathlib.Tactic.Positivity
import Mathlib.Tactic.Ring

/-!
# Rounding to double precision

Every binary64 value holds an interval of rationals, those that are rounded to it: half a unit of its
last place to both sides, but only a quarter below a power of two, where the units below are half as
large. The bounds belong to a value with an even mantissa.

`Decimal.nearest` finds the value that holds a quotient (`Decimal.nearest_of_holds`), and it finds
only values of the format (`Decimal.normal_of_nearest`). Both rest on the exponent of the last place
that it works with, which is a function of the quotient alone (`Decimal.nearest_eq`).
-/

namespace Concordance.Decimal

/-- A value of the format: of two forms of a value the one with the larger mantissa. -/
structure Binary.Normal (b : Binary) : Prop where
  small : b.mantissa < mantissas
  least : -1074 ≤ b.exponent
  most : b.exponent ≤ 971
  leading : b.exponent = -1074 ∨ mantissas ≤ 2 * b.mantissa

/-- How far the interval of a value goes below it, in units of the last place. -/
def Binary.gap (b : Binary) : ℚ :=
  if b.mantissa = mantissas / 2 ∧ -1074 < b.exponent then 1 / 4 else 1 / 2

/-- A rational is rounded to the value. -/
structure Binary.Holds (b : Binary) (x : ℚ) : Prop where
  low : b.mantissa - b.gap ≤ x / 2 ^ b.exponent
  high : x / 2 ^ b.exponent ≤ b.mantissa + 1 / 2
  strict : b.mantissa % 2 = 1 →
    b.mantissa - b.gap < x / 2 ^ b.exponent ∧ x / 2 ^ b.exponent < b.mantissa + 1 / 2

/-! ### Powers -/

theorem powerPart_pos {base : ℕ} (h : 0 < base) (e : ℤ) : 0 < powerPart base e :=
  Nat.pow_pos h

theorem powerPart_ne_zero {base : ℕ} (h : 0 < base) (e : ℤ) : (powerPart base e : ℚ) ≠ 0 :=
  Nat.cast_ne_zero.mpr (powerPart_pos h e).ne'

/-- A power is the quotient of its two parts. -/
theorem powerPart_eq {base : ℕ} (h : 0 < base) (e : ℤ) :
    (powerPart base e : ℚ) = (base : ℚ) ^ e * powerPart base (-e) := by
  have hbase : (base : ℚ) ≠ 0 := Nat.cast_ne_zero.mpr h.ne'
  unfold powerPart
  obtain ⟨n, rfl | rfl⟩ := e.eq_nat_or_neg
  · simp
  · simp [hbase]

/-- A quotient in units of a power of two. -/
theorem scaled_eq (num den : ℕ) (e : ℤ) :
    ((num * powerPart 2 (-e) : ℕ) : ℚ) / ((den * powerPart 2 e : ℕ) : ℚ) =
      (num : ℚ) / den / 2 ^ e := by
  have htwo := powerPart_ne_zero (by decide : 0 < 2) (-e)
  push_cast
  rw [powerPart_eq (by decide : 0 < 2) e, Nat.cast_ofNat]
  field_simp

/-! ### Rounding a quotient -/

/-- **A quotient is rounded to the whole number that it is nearest to**, half way to an even one. -/
theorem roundQuotient_eq {num den m : ℕ} (hden : 0 < den)
    (hlow : (m : ℚ) - 1 / 2 ≤ (num : ℚ) / den) (hhigh : (num : ℚ) / den ≤ m + 1 / 2)
    (hstrict : m % 2 = 1 → (m : ℚ) - 1 / 2 < (num : ℚ) / den ∧ (num : ℚ) / den < m + 1 / 2) :
    roundQuotient num den = m := by
  have hpos : (0 : ℚ) < den := Nat.cast_pos.mpr hden
  have hrest : num % den < den := Nat.mod_lt num hden
  have hquotient : (num : ℚ) / den = (num / den : ℕ) + ((num % den : ℕ) : ℚ) / den := by
    rw [eq_comm, ← mul_right_cancel_iff_of_pos hpos, add_mul, div_mul_cancel₀ _ hpos.ne',
      div_mul_cancel₀ _ hpos.ne']
    exact_mod_cast Nat.div_add_mod' num den
  rw [hquotient] at hlow hhigh hstrict
  unfold roundQuotient
  dsimp only
  generalize num / den = q at *
  generalize num % den = r at *
  have hnonneg : (0 : ℚ) ≤ (r : ℚ) / den := by positivity
  have hone : (r : ℚ) / den < 1 := (div_lt_one hpos).mpr (Nat.cast_lt.mpr hrest)
  have hcases : m = q ∨ m = q + 1 := by
    have hq : (q : ℚ) < m + 1 := by linarith
    have hm : (m : ℚ) < q + 2 := by linarith
    have hq : q < m + 1 := by exact_mod_cast hq
    have hm : m < q + 2 := by exact_mod_cast hm
    omega
  -- The rest is compared with the half of the divisor.
  have hhalf : 2 * r < den ↔ (r : ℚ) / den < 1 / 2 := by
    rw [div_lt_iff₀ hpos, ← Nat.cast_lt (α := ℚ)]
    push_cast
    constructor <;> intro h <;> linarith
  have hhalf' : den < 2 * r ↔ 1 / 2 < (r : ℚ) / den := by
    rw [lt_div_iff₀ hpos, ← Nat.cast_lt (α := ℚ)]
    push_cast
    constructor <;> intro h <;> linarith
  rcases hcases with rfl | rfl
  · split
    · rfl
    · next hge =>
      rw [hhalf, not_lt] at hge
      rw [if_neg (by rw [hhalf']; linarith)]
      rcases Nat.mod_two_eq_zero_or_one m with heven | hodd
      · omega
      · linarith [(hstrict hodd).2]
  · push_cast at hlow hhigh hstrict
    have hge : 1 / 2 ≤ (r : ℚ) / den := by linarith
    rw [if_neg (by rw [hhalf]; linarith)]
    split
    · rfl
    · next hle =>
      rw [hhalf', not_lt] at hle
      rcases Nat.mod_two_eq_zero_or_one (q + 1) with heven | hodd
      · omega
      · linarith [(hstrict hodd).1]

/-- A quotient below a whole number is not rounded above it. -/
theorem roundQuotient_le {num den m : ℕ} (h : num < m * den) : roundQuotient num den ≤ m := by
  have hq : num / den < m := Nat.div_lt_of_lt_mul (by rwa [Nat.mul_comm])
  unfold roundQuotient
  dsimp only
  split
  · exact hq.le
  · split
    · exact hq
    · omega

/-- A quotient that is not below a whole number is not rounded below it. -/
theorem le_roundQuotient {num den m : ℕ} (hden : 0 < den) (h : m * den ≤ num) :
    m ≤ roundQuotient num den := by
  have hq : m ≤ num / den := (Nat.le_div_iff_mul_le hden).mpr h
  unfold roundQuotient
  dsimp only
  split
  · exact hq
  · split
    · omega
    · omega

/-! ### The nearest value -/

/-- The exponent of the last place of a value near a rational. -/
def unitExponent (x : ℚ) : ℤ :=
  max (Int.log 2 x - 52) (-1074)

/-- In units of its last place a number has no more than 53 bits. -/
theorem scaled_lt {x : ℚ} (hx : 0 < x) : x / 2 ^ unitExponent x < mantissas := by
  have hlog : Int.log 2 x < unitExponent x + 53 := by
    unfold unitExponent
    omega
  rw [← Int.lt_zpow_iff_log_lt (by decide) hx, add_comm, zpow_add₀ (by norm_num)] at hlog
  rw [div_lt_iff₀ (by positivity)]
  norm_num [mantissas] at hlog ⊢
  exact hlog

/-- It has all of them, unless the unit is the smallest there is. -/
theorem le_scaled {x : ℚ} (hx : 0 < x) (h : unitExponent x ≠ -1074) :
    ((mantissas / 2 : ℕ) : ℚ) ≤ x / 2 ^ unitExponent x := by
  have hlog : unitExponent x + 52 ≤ Int.log 2 x := by
    unfold unitExponent at h ⊢
    omega
  rw [← Int.zpow_le_iff_le_log (by decide) hx, add_comm, zpow_add₀ (by norm_num)] at hlog
  rw [le_div_iff₀ (by positivity)]
  norm_num [mantissas] at hlog ⊢
  exact hlog

/-- The exponent of the last place is the one at which the mantissa has its length. -/
theorem unitExponent_eq {x : ℚ} {e : ℤ} (hx : 0 < x) (hleast : -1074 ≤ e)
    (hhigh : x / 2 ^ e < mantissas) (hlow : e = -1074 ∨ ((mantissas / 2 : ℕ) : ℚ) ≤ x / 2 ^ e) :
    unitExponent x = e := by
  have hlog : Int.log 2 x < e + 53 := by
    rw [← Int.lt_zpow_iff_log_lt (by decide) hx, add_comm, zpow_add₀ (by norm_num)]
    rw [div_lt_iff₀ (by positivity)] at hhigh
    norm_num [mantissas] at hhigh ⊢
    exact hhigh
  rcases hlow with rfl | hlow
  · unfold unitExponent
    omega
  · have hlog' : e + 52 ≤ Int.log 2 x := by
      rw [← Int.zpow_le_iff_le_log (by decide) hx, add_comm, zpow_add₀ (by norm_num)]
      rw [le_div_iff₀ (by positivity)] at hlow
      norm_num [mantissas] at hlow ⊢
      exact hlow
    unfold unitExponent
    omega

section Nearest

variable {num den : ℕ} {b : Binary}

/-- The lengths of the two numbers give the length of their quotient up to one. -/
theorem log_quotient (hnum : 0 < num) (hden : 0 < den) :
    (num.log2 : ℤ) - den.log2 - 1 ≤ Int.log 2 ((num : ℚ) / den) ∧
      Int.log 2 ((num : ℚ) / den) < (num.log2 : ℤ) - den.log2 + 1 := by
  have hn : (0 : ℚ) < num := Nat.cast_pos.mpr hnum
  have hd : (0 : ℚ) < den := Nat.cast_pos.mpr hden
  have hnlow : (2 : ℚ) ^ (num.log2 : ℤ) ≤ num := by
    exact_mod_cast Nat.log2_self_le hnum.ne'
  have hnhigh : (num : ℚ) < 2 ^ ((num.log2 : ℤ) + 1) := by
    exact_mod_cast Nat.lt_log2_self
  have hdlow : (2 : ℚ) ^ (den.log2 : ℤ) ≤ den := by
    exact_mod_cast Nat.log2_self_le hden.ne'
  have hdhigh : (den : ℚ) < 2 ^ ((den.log2 : ℤ) + 1) := by
    exact_mod_cast Nat.lt_log2_self
  constructor
  · rw [← Int.zpow_le_iff_le_log (by decide) (div_pos hn hd), le_div_iff₀ hd]
    calc ((2 : ℕ) : ℚ) ^ ((num.log2 : ℤ) - den.log2 - 1) * den
        ≤ 2 ^ ((num.log2 : ℤ) - den.log2 - 1) * 2 ^ ((den.log2 : ℤ) + 1) := by
          push_cast
          gcongr
      _ = 2 ^ (num.log2 : ℤ) := by
          rw [← zpow_add₀ (by norm_num)]
          congr 1
          omega
      _ ≤ num := hnlow
  · rw [← Int.lt_zpow_iff_log_lt (by decide) (div_pos hn hd), div_lt_iff₀ hd]
    calc (num : ℚ) < 2 ^ ((num.log2 : ℤ) + 1) := hnhigh
      _ = 2 ^ ((num.log2 : ℤ) - den.log2 + 1) * 2 ^ (den.log2 : ℤ) := by
          rw [← zpow_add₀ (by norm_num)]
          congr 1
          omega
      _ ≤ ((2 : ℕ) : ℚ) ^ ((num.log2 : ℤ) - den.log2 + 1) * den := by
          push_cast
          gcongr

/-- **The unit is a function of the quotient.** -/
theorem nearest_eq (hnum : 0 < num) (hden : 0 < den) :
    nearest num den =
      let e := unitExponent ((num : ℚ) / den)
      let m := roundQuotient (num * powerPart 2 (-e)) (den * powerPart 2 e)
      let b : Binary := if m = mantissas then ⟨mantissas / 2, e + 1⟩ else ⟨m, e⟩
      if 971 < b.exponent then none else some b := by
  have hpos : (0 : ℚ) < (num : ℚ) / den := div_pos (Nat.cast_pos.mpr hnum) (Nat.cast_pos.mpr hden)
  have hexponent : ∀ guess : ℤ, guess = (num.log2 : ℤ) - den.log2 - 53 →
      (if mantissas * (den * powerPart 2 guess) ≤ num * powerPart 2 (-guess) then guess + 1
        else guess) = Int.log 2 ((num : ℚ) / den) - 52 := by
    intro guess hguess
    obtain ⟨hlow, hhigh⟩ := log_quotient hnum hden
    have hwide : mantissas * (den * powerPart 2 guess) ≤ num * powerPart 2 (-guess) ↔
        guess + 53 ≤ Int.log 2 ((num : ℚ) / den) := by
      have hscale : (0 : ℚ) < ((den * powerPart 2 guess : ℕ) : ℚ) :=
        Nat.cast_pos.mpr (Nat.mul_pos hden (powerPart_pos (by decide) _))
      rw [← Int.zpow_le_iff_le_log (by decide) hpos, ← Nat.cast_le (α := ℚ), Nat.cast_mul,
        ← le_div_iff₀ hscale, scaled_eq, le_div_iff₀ (by positivity), add_comm guess,
        zpow_add₀ (by norm_num)]
      norm_num [mantissas]
    split
    · next h => rw [hwide] at h; omega
    · next h => rw [hwide] at h; omega
  unfold nearest unitExponent
  dsimp only
  rw [hexponent _ rfl]

/-- **Only values of the format are found.** -/
theorem normal_of_nearest (hnum : 0 < num) (hden : 0 < den) (h : nearest num den = some b) :
    b.Normal := by
  rw [nearest_eq hnum hden] at h
  dsimp only at h
  have hpos : (0 : ℚ) < (num : ℚ) / den := div_pos (Nat.cast_pos.mpr hnum) (Nat.cast_pos.mpr hden)
  have hhigh := scaled_lt hpos
  have hlow := le_scaled hpos
  have hleast : -1074 ≤ unitExponent ((num : ℚ) / den) := le_max_right _ _
  generalize unitExponent ((num : ℚ) / den) = e at *
  have hunit : 0 < den * powerPart 2 e := Nat.mul_pos hden (powerPart_pos (by decide) e)
  have hunit' : (0 : ℚ) < ((den * powerPart 2 e : ℕ) : ℚ) := Nat.cast_pos.mpr hunit
  have hle : roundQuotient (num * powerPart 2 (-e)) (den * powerPart 2 e) ≤ mantissas := by
    refine roundQuotient_le ?_
    rw [← scaled_eq, div_lt_iff₀ hunit'] at hhigh
    exact_mod_cast hhigh
  have hge : e ≠ -1074 →
      mantissas / 2 ≤ roundQuotient (num * powerPart 2 (-e)) (den * powerPart 2 e) := by
    intro he
    refine le_roundQuotient hunit ?_
    have hlow := hlow he
    rw [← scaled_eq, le_div_iff₀ hunit'] at hlow
    exact_mod_cast hlow
  generalize roundQuotient (num * powerPart 2 (-e)) (den * powerPart 2 e) = m at *
  split at h
  · split at h
    · cases h
    · next hmost =>
      cases h
      have hhalf : mantissas / 2 < mantissas ∧ mantissas ≤ 2 * (mantissas / 2) := by decide
      exact ⟨hhalf.1, by dsimp only; omega, not_lt.mp hmost, .inr hhalf.2⟩
  · next hm =>
    split at h
    · cases h
    · next hmost =>
      cases h
      refine ⟨lt_of_le_of_ne hle hm, hleast, not_lt.mp hmost, ?_⟩
      by_cases he : e = -1074
      · exact .inl he
      · have hge := hge he
        refine .inr ?_
        dsimp only [mantissas] at *
        omega

/-- The interval of a value goes no more than half a unit below it. -/
theorem Binary.gap_le (b : Binary) : b.gap ≤ 1 / 2 := by
  unfold gap
  split <;> norm_num

/-- The mantissa found is the nearest one in units of the last place. -/
theorem nearest_of_unit {e : ℤ} {m : ℕ} (hnum : 0 < num) (hden : 0 < den)
    (he : unitExponent ((num : ℚ) / den) = e) (hlow : (m : ℚ) - 1 / 2 ≤ (num : ℚ) / den / 2 ^ e)
    (hhigh : (num : ℚ) / den / 2 ^ e ≤ m + 1 / 2)
    (hstrict : m % 2 = 1 →
      (m : ℚ) - 1 / 2 < (num : ℚ) / den / 2 ^ e ∧ (num : ℚ) / den / 2 ^ e < m + 1 / 2) :
    nearest num den =
      let b : Binary := if m = mantissas then ⟨mantissas / 2, e + 1⟩ else ⟨m, e⟩
      if 971 < b.exponent then none else some b := by
  have hunit : 0 < den * powerPart 2 e := Nat.mul_pos hden (powerPart_pos (by decide) e)
  rw [← scaled_eq] at hlow hhigh hstrict
  rw [nearest_eq hnum hden, he]
  dsimp only
  rw [roundQuotient_eq hunit hlow hhigh hstrict]

/-- A quotient just below a power of two is rounded up to it. -/
theorem nearest_of_below (hnum : 0 < num) (hden : 0 < den) (hb : b.Normal)
    (h : b.Holds ((num : ℚ) / den)) (hleast : b.exponent ≠ -1074)
    (hbelow : (num : ℚ) / den / 2 ^ b.exponent < (mantissas / 2 : ℕ)) :
    nearest num den = some b := by
  have hpos : (0 : ℚ) < (num : ℚ) / den := div_pos (Nat.cast_pos.mpr hnum) (Nat.cast_pos.mpr hden)
  have hlow := h.low
  have hgap := b.gap_le
  have hm : b.mantissa = mantissas / 2 := by
    have hle : (b.mantissa : ℚ) < (mantissas / 2 : ℕ) + 1 := by linarith
    have hle : b.mantissa < mantissas / 2 + 1 := by exact_mod_cast hle
    have hge := hb.leading.resolve_left hleast
    dsimp only [mantissas] at *
    omega
  have hgap : b.gap = 1 / 4 := if_pos ⟨hm, lt_of_le_of_ne hb.least hleast.symm⟩
  rw [hm, hgap] at hlow
  -- In units that are half as large the quotient is almost the next mantissa after the last.
  have hdouble : (num : ℚ) / den / 2 ^ (b.exponent - 1) = 2 * ((num : ℚ) / den / 2 ^ b.exponent) := by
    rw [zpow_sub_one₀ (by norm_num)]
    field_simp
  have htwo : ((mantissas / 2 : ℕ) : ℚ) * 2 = mantissas := by norm_num [mantissas]
  have he : unitExponent ((num : ℚ) / den) = b.exponent - 1 := by
    have hbound := hb.least
    refine unitExponent_eq hpos (by omega) ?_ (.inr ?_)
    · rw [hdouble]; linarith
    · rw [hdouble]
      norm_num [mantissas] at hlow ⊢
      linarith
  rw [nearest_of_unit (m := mantissas) hnum hden he (by rw [hdouble]; linarith)
    (by rw [hdouble]; linarith) (fun hodd => absurd hodd (by decide))]
  dsimp only
  rw [if_pos rfl, Int.sub_add_cancel, if_neg (not_lt.mpr hb.most), ← hm]

/-- **The value that holds a quotient is found.** -/
theorem nearest_of_holds (hnum : 0 < num) (hden : 0 < den) (hb : b.Normal)
    (h : b.Holds ((num : ℚ) / den)) : nearest num den = some b := by
  have hpos : (0 : ℚ) < (num : ℚ) / den := div_pos (Nat.cast_pos.mpr hnum) (Nat.cast_pos.mpr hden)
  have hgap := b.gap_le
  have hsmall : (b.mantissa : ℚ) + 1 ≤ mantissas := by exact_mod_cast hb.small
  by_cases hcase : b.exponent = -1074 ∨ ((mantissas / 2 : ℕ) : ℚ) ≤ (num : ℚ) / den / 2 ^ b.exponent
  · have he : unitExponent ((num : ℚ) / den) = b.exponent :=
      unitExponent_eq hpos hb.least (by linarith [h.high]) hcase
    rw [nearest_of_unit hnum hden he (by linarith [h.low]) h.high
      (fun hodd => ⟨by linarith [(h.strict hodd).1], (h.strict hodd).2⟩)]
    dsimp only
    rw [if_neg hb.small.ne, if_neg (not_lt.mpr hb.most)]
  · rw [not_or, not_le] at hcase
    exact nearest_of_below hnum hden hb h hcase.1 hcase.2

end Nearest

end Concordance.Decimal
