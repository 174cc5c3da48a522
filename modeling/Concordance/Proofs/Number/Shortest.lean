import Concordance.Proofs.Chars.Numeral
import Concordance.Proofs.Number.Rounding
import Mathlib.Data.Nat.Cast.Order.Field

/-!
# The shortest decimal

The decimal that names a binary64 value lies in the interval of the value
(`Decimal.exists_shortest_eq`): some grid of decimals is fine enough to have a point there. So every
decimal of the same magnitude is rounded to the same real (`Number.ofDecimal_of_holds`).
-/

namespace Concordance

namespace Decimal

/-- The size of a decimal, whatever its sign. -/
def magnitude (d : Decimal) : ℚ :=
  d.digits * 10 ^ d.exponent

/-- Leaving out the zeros at the end does not change a decimal. -/
theorem trim_spec (negative : Bool) (digits : ℕ) (exponent : ℤ) :
    (trim negative digits exponent).negative = negative ∧
      (trim negative digits exponent).magnitude = digits * 10 ^ exponent := by
  fun_induction trim negative digits exponent with
  | case1 exponent => exact ⟨rfl, by simp [magnitude]⟩
  | case2 digits exponent h hten ih =>
      refine ⟨ih.1, ?_⟩
      have hdigits : (digits : ℚ) = (digits / 10 : ℕ) * 10 := by
        exact_mod_cast (Nat.div_mul_cancel (Nat.dvd_of_mod_eq_zero hten)).symm
      rw [ih.2, hdigits, zpow_add_one₀ (by norm_num)]
      ring
  | case3 digits exponent h hten => exact ⟨rfl, rfl⟩

section Names

variable {b : Binary} {d : ℕ} {p : ℤ}

/-- A multiple of a power of ten in units of the last place, as a quotient of whole numbers. -/
theorem gridPoint_eq (d : ℕ) (p e : ℤ) :
    ((4 * (d * powerPart 10 p) * powerPart 2 (-e) : ℕ) : ℚ) /
        ((powerPart 10 (-p) * powerPart 2 e : ℕ) : ℚ) = 4 * (d * 10 ^ p / 2 ^ e) := by
  have hten := powerPart_ne_zero (by decide : 0 < 10) (-p)
  have htwo := powerPart_ne_zero (by decide : 0 < 2) (-e)
  push_cast
  rw [powerPart_eq (by decide : 0 < 10) p, powerPart_eq (by decide : 0 < 2) e, Nat.cast_ofNat,
    Nat.cast_ofNat]
  field_simp

/-- The lower bound of the interval, in quarters of a unit. -/
theorem quarters_below (hm : 0 < b.mantissa) :
    ((4 * b.mantissa - (if b.mantissa = mantissas / 2 && -1074 < b.exponent then 1 else 2) : ℕ) : ℚ) =
      4 * (b.mantissa - b.gap) := by
  unfold Binary.gap
  by_cases h : b.mantissa = mantissas / 2 ∧ -1074 < b.exponent
  · rw [if_pos (by simpa using h), if_pos h, Nat.cast_sub (by omega)]
    push_cast
    ring
  · rw [if_neg (by simpa using h), if_neg h, Nat.cast_sub (by omega)]
    push_cast
    ring

/-- **A decimal names the value that holds it.** -/
theorem names_iff (hm : 0 < b.mantissa) : names b d p ↔ b.Holds (d * 10 ^ p) := by
  have hunit : (0 : ℚ) < ((powerPart 10 (-p) * powerPart 2 b.exponent : ℕ) : ℚ) :=
    Nat.cast_pos.mpr (Nat.mul_pos (powerPart_pos (by decide) _) (powerPart_pos (by decide) _))
  have hpoint := gridPoint_eq d p b.exponent
  have hlow := quarters_below hm
  have hhigh : ((4 * b.mantissa + 2 : ℕ) : ℚ) = 4 * (b.mantissa + 1 / 2) := by
    push_cast
    ring
  unfold names
  dsimp only
  generalize 4 * (d * powerPart 10 p) * powerPart 2 (-b.exponent) = value at *
  generalize powerPart 10 (-p) * powerPart 2 b.exponent = unit at *
  generalize 4 * b.mantissa -
    (if b.mantissa = mantissas / 2 && -1074 < b.exponent then 1 else 2) = low at *
  generalize 4 * b.mantissa + 2 = high at *
  have hle : ∀ (a : ℕ) (z : ℚ), (a : ℚ) = 4 * z →
      (a * unit ≤ value ↔ z ≤ d * 10 ^ p / 2 ^ b.exponent) := by
    intro a z ha
    rw [← Nat.cast_le (α := ℚ), Nat.cast_mul, ← le_div_iff₀ hunit, hpoint, ha]
    exact mul_le_mul_iff_right₀ (by norm_num)
  have hge : ∀ (a : ℕ) (z : ℚ), (a : ℚ) = 4 * z →
      (value ≤ a * unit ↔ d * 10 ^ p / 2 ^ b.exponent ≤ z) := by
    intro a z ha
    rw [← Nat.cast_le (α := ℚ), Nat.cast_mul, ← div_le_iff₀ hunit, hpoint, ha]
    exact mul_le_mul_iff_right₀ (by norm_num)
  split
  · next heven =>
    rw [Bool.and_eq_true, decide_eq_true_iff, decide_eq_true_iff, hle _ _ hlow, hge _ _ hhigh]
    exact ⟨fun h => ⟨h.1, h.2, fun hodd => by omega⟩, fun h => ⟨h.low, h.high⟩⟩
  · next hodd =>
    rw [Bool.and_eq_true, decide_eq_true_iff, decide_eq_true_iff, ← not_le, ← not_le,
      hge _ _ hlow, hle _ _ hhigh, not_le, not_le]
    exact ⟨fun h => ⟨h.1.le, h.2.le, fun _ => h⟩, fun h => h.strict (by omega)⟩

/-- A decimal found on a grid is not zero and names the value. -/
theorem names_of_onGrid (h : onGrid b p = some d) : d ≠ 0 ∧ names b d p := by
  unfold onGrid at h
  dsimp only at h
  generalize b.mantissa * powerPart 2 b.exponent * powerPart 10 (-p) = num at h
  generalize powerPart 2 (-b.exponent) * powerPart 10 p = den at h
  split at h
  · next hboth =>
    simp only [Bool.and_eq_true, bne_iff_ne] at hboth
    obtain ⟨⟨hne, hbelow⟩, habove⟩ := hboth
    have hcases : d = num / den ∨ d = num / den + 1 := by
      have h := Option.some.inj h
      split at h
      · exact .inl h.symm
      · split at h
        · exact .inr h.symm
        · omega
    rcases hcases with rfl | rfl
    · exact ⟨hne, hbelow⟩
    · exact ⟨Nat.succ_ne_zero _, habove⟩
  · split at h
    · next hbelow =>
      cases h
      simpa using hbelow
    · split at h
      · next habove =>
        cases h
        exact ⟨Nat.succ_ne_zero _, habove⟩
      · cases h

/-- The interval of a value goes below it. -/
theorem Binary.gap_pos (b : Binary) : 0 < b.gap := by
  unfold gap
  split <;> norm_num

/-- A value on a grid of decimals, as a quotient of whole numbers. -/
theorem onGrid_quotient (b : Binary) (p : ℤ) :
    ((b.mantissa * powerPart 2 b.exponent * powerPart 10 (-p) : ℕ) : ℚ) /
        ((powerPart 2 (-b.exponent) * powerPart 10 p : ℕ) : ℚ) =
      b.mantissa * 2 ^ b.exponent / 10 ^ p := by
  have hten := powerPart_ne_zero (by decide : 0 < 10) (-p)
  have htwo := powerPart_ne_zero (by decide : 0 < 2) (-b.exponent)
  push_cast
  rw [powerPart_eq (by decide : 0 < 10) p, powerPart_eq (by decide : 0 < 2) b.exponent,
    Nat.cast_ofNat, Nat.cast_ofNat]
  field_simp

/-- **A fine grid has a point in the interval** of every value: the next one above the value. -/
theorem isSome_onGrid (hm : 0 < b.mantissa) (hfine : 4 * (10 : ℚ) ^ p ≤ 2 ^ b.exponent) :
    (onGrid b p).isSome := by
  have hquotient := onGrid_quotient b p
  have hden : 0 < powerPart 2 (-b.exponent) * powerPart 10 p :=
    Nat.mul_pos (powerPart_pos (by decide) _) (powerPart_pos (by decide) _)
  have hnames : ∀ num den : ℕ, 0 < den → (num : ℚ) / den = b.mantissa * 2 ^ b.exponent / 10 ^ p →
      names b (num / den + 1) p := by
    intro num den hden hquotient
    have hlow : ((num / den : ℕ) : ℚ) ≤ (num : ℚ) / den := Nat.cast_div_le
    have hhigh : (num : ℚ) / den < (num / den : ℕ) + 1 := by
      rw [div_lt_iff₀ (Nat.cast_pos.mpr hden)]
      exact_mod_cast Nat.lt_mul_of_div_lt (Nat.lt_succ_self _) hden
    rw [hquotient] at hlow hhigh
    have hten : (0 : ℚ) < 10 ^ p := by positivity
    have htwo : (0 : ℚ) < 2 ^ b.exponent := by positivity
    rw [le_div_iff₀ hten] at hlow
    rw [div_lt_iff₀ hten] at hhigh
    rw [names_iff hm]
    push_cast
    have habove : (b.mantissa : ℚ) < ((num / den : ℕ) + 1) * 10 ^ p / 2 ^ b.exponent :=
      (lt_div_iff₀ htwo).mpr hhigh
    have hbelow : ((num / den : ℕ) + 1) * (10 : ℚ) ^ p / 2 ^ b.exponent < b.mantissa + 1 / 2 := by
      rw [div_lt_iff₀ htwo]
      linarith
    have hgap := b.gap_pos
    exact ⟨by linarith, hbelow.le, fun _ => ⟨by linarith, hbelow⟩⟩
  unfold onGrid
  dsimp only
  rw [hnames _ _ hden hquotient]
  split
  · rfl
  · split
    · rfl
    · rfl

/-- The finest grid is fine enough for the smallest unit. -/
theorem finest_le {e : ℤ} (he : -1074 ≤ e) : 4 * (10 : ℚ) ^ (-349 : ℤ) ≤ 2 ^ e := by
  have hsmall : 4 * (10 : ℚ) ^ (-349 : ℤ) ≤ 2 ^ (-1074 : ℤ) := by
    rw [show (-349 : ℤ) = -((58 * 6 + 1 : ℕ) : ℤ) by norm_num,
      show (-1074 : ℤ) = -((179 * 6 : ℕ) : ℤ) by norm_num, zpow_neg, zpow_neg, zpow_natCast,
      zpow_natCast, pow_succ, pow_mul, pow_mul]
    norm_num
  exact hsmall.trans (zpow_le_zpow_right₀ (by norm_num) he)

theorem finest_mem : (-349 : ℤ) ∈ grids :=
  List.mem_map.mpr ⟨659, List.mem_range.mpr (by decide), by norm_num⟩

/-- **The shortest decimal names its value.** -/
theorem exists_shortest_eq (hb : b.Normal) (hm : 0 < b.mantissa) (negative : Bool) :
    ∃ (d : ℕ) (p : ℤ), shortest negative b = trim negative d p ∧ b.Holds (d * 10 ^ p) := by
  unfold shortest
  cases hfound : grids.findSome? fun p => (onGrid b p).map fun d => trim negative d p with
  | some found =>
      obtain ⟨p, -, hp⟩ := List.exists_of_findSome?_eq_some hfound
      obtain ⟨d, hgrid, rfl⟩ := Option.map_eq_some_iff.mp hp
      exact ⟨d, p, rfl, (names_iff hm).mp (names_of_onGrid hgrid).2⟩
  | none =>
      have hno := List.findSome?_eq_none_iff.mp hfound _ finest_mem
      have hsome := isSome_onGrid hm (finest_le hb.least)
      rw [Option.map_eq_none_iff.mp hno] at hsome
      cases hsome

end Names

end Decimal

namespace Number

open Decimal

variable {d : Decimal} {b : Binary}

/-- The magnitudes that the values of the format hold. -/
theorem magnitude_of_holds {x : ℚ} (hb : b.Normal) (hm : 0 < b.mantissa) (h : b.Holds x) :
    (10 : ℚ) ^ (-331 : ℤ) < x ∧ x < 10 ^ (310 : ℤ) := by
  have htwo : (0 : ℚ) < 2 ^ b.exponent := by positivity
  have hone : (1 : ℚ) ≤ b.mantissa := by exact_mod_cast hm
  have hsmall : (b.mantissa : ℚ) + 1 ≤ mantissas := by exact_mod_cast hb.small
  have hgap := b.gap_le
  have hleast : (2 : ℚ) ^ (-1074 : ℤ) ≤ 2 ^ b.exponent :=
    zpow_le_zpow_right₀ (by norm_num) hb.least
  have hmost : (2 : ℚ) ^ b.exponent ≤ 2 ^ (971 : ℤ) := zpow_le_zpow_right₀ (by norm_num) hb.most
  constructor
  · have hlow : (1 / 2 : ℚ) ≤ x / 2 ^ b.exponent := by linarith [h.low]
    have hbound : (10 : ℚ) ^ (-331 : ℤ) < 1 / 2 * 2 ^ (-1074 : ℤ) := by
      rw [show (-331 : ℤ) = -((55 * 6 + 1 : ℕ) : ℤ) by norm_num,
        show (-1074 : ℤ) = -((179 * 6 : ℕ) : ℤ) by norm_num, zpow_neg, zpow_neg, zpow_natCast,
        zpow_natCast, pow_succ, pow_mul, pow_mul]
      norm_num
    rw [le_div_iff₀ htwo] at hlow
    linarith
  · have hhigh : x / 2 ^ b.exponent < mantissas := by linarith [h.high]
    have hbound : (mantissas : ℚ) * 2 ^ (971 : ℤ) < 10 ^ (310 : ℤ) := by
      rw [show (971 : ℤ) = ((97 * 10 + 1 : ℕ) : ℤ) by norm_num,
        show (310 : ℤ) = ((31 * 10 : ℕ) : ℤ) by norm_num, zpow_natCast, zpow_natCast, pow_succ,
        pow_mul, pow_mul]
      norm_num [mantissas]
    rw [div_lt_iff₀ htwo] at hhigh
    exact (hhigh.trans_le (mul_le_mul_of_nonneg_left hmost (Nat.cast_nonneg _))).trans hbound

/-- What a value holds is neither too small nor too large to be looked at. -/
theorem size_of_holds (hb : b.Normal) (hm : 0 < b.mantissa) (h : b.Holds d.magnitude) :
    d.digits ≠ 0 ∧ -330 ≤ (Chars.numeral d.digits).length + d.exponent ∧
      (Chars.numeral d.digits).length + d.exponent ≤ 310 := by
  obtain ⟨hlow, hhigh⟩ := magnitude_of_holds hb hm h
  have hten : (0 : ℚ) < 10 ^ d.exponent := by positivity
  have hdigits : d.digits ≠ 0 := by
    intro hzero
    have hpos : (0 : ℚ) < 10 ^ (-331 : ℤ) := by positivity
    rw [magnitude, hzero, Nat.cast_zero, zero_mul] at hlow
    linarith
  have hsize : ∀ n : ℕ, (10 : ℚ) ^ ((n : ℤ) + d.exponent) = 10 ^ n * 10 ^ d.exponent :=
    fun n => by rw [zpow_add₀ (by norm_num), zpow_natCast]
  refine ⟨hdigits, ?_, ?_⟩
  · have hlt : (d.digits : ℚ) < 10 ^ (Chars.numeral d.digits).length := by
      exact_mod_cast Chars.lt_pow_length_numeral d.digits
    have hmagnitude : d.magnitude < 10 ^ ((Chars.numeral d.digits).length + d.exponent) := by
      rw [hsize, magnitude]
      gcongr
    have hexponent := (zpow_lt_zpow_iff_right₀ (by norm_num)).mp (hlow.trans hmagnitude)
    omega
  · have hle : (10 : ℚ) ^ (Chars.numeral d.digits).length ≤ 10 * d.digits := by
      exact_mod_cast Chars.pow_length_numeral_le (Nat.pos_of_ne_zero hdigits)
    have hmagnitude : (10 : ℚ) ^ ((Chars.numeral d.digits).length + d.exponent) <
        10 ^ (310 + 1 : ℤ) := by
      rw [hsize, zpow_add_one₀ (by norm_num)]
      calc (10 : ℚ) ^ (Chars.numeral d.digits).length * 10 ^ d.exponent
          ≤ 10 * d.digits * 10 ^ d.exponent := by gcongr
        _ = d.magnitude * 10 := by rw [magnitude]; ring
        _ < 10 ^ (310 : ℤ) * 10 := by gcongr
    have hexponent := (zpow_lt_zpow_iff_right₀ (by norm_num)).mp hmagnitude
    omega

/-- **A decimal in the interval of a value is rounded to it.** -/
theorem ofDecimal_of_holds (hb : b.Normal) (hm : 0 < b.mantissa) (h : b.Holds d.magnitude) :
    ofDecimal d = .real (shortest d.negative b) := by
  obtain ⟨hdigits, hlow, hhigh⟩ := size_of_holds hb hm h
  have hquotient : ((d.digits * powerPart 10 d.exponent : ℕ) : ℚ) /
      ((powerPart 10 (-d.exponent) : ℕ) : ℚ) = d.magnitude := by
    have hten := powerPart_ne_zero (by decide : 0 < 10) (-d.exponent)
    push_cast
    rw [powerPart_eq (by decide : 0 < 10) d.exponent, Nat.cast_ofNat, magnitude]
    field_simp
  have hnearest : nearest (d.digits * powerPart 10 d.exponent) (powerPart 10 (-d.exponent)) =
      some b := by
    refine nearest_of_holds ?_ (powerPart_pos (by decide) _) hb (by rwa [hquotient])
    exact Nat.mul_pos (Nat.pos_of_ne_zero hdigits) (powerPart_pos (by decide) _)
  unfold ofDecimal
  dsimp only
  rw [if_neg (by simp [hdigits]; omega), if_neg (by omega), hnearest]
  exact if_neg hm.ne'

/-- A decimal without magnitude is zero. -/
theorem ofDecimal_zero (h : d.magnitude = 0) : ofDecimal d = .real ⟨d.negative, 0, 0⟩ := by
  have hten : (10 : ℚ) ^ d.exponent ≠ 0 := by positivity
  have hdigits : d.digits = 0 := by
    rw [magnitude, mul_eq_zero, or_iff_left hten] at h
    exact_mod_cast h
  unfold ofDecimal
  dsimp only
  rw [if_pos (by simp [hdigits])]

/-- **The reals of double precision**: zero, and the shortest decimals of the values. -/
theorem ofDecimal_cases (d : Decimal) :
    ofDecimal d = .infinite d.negative ∨ ofDecimal d = .real ⟨d.negative, 0, 0⟩ ∨
      ∃ b : Binary, b.Normal ∧ 0 < b.mantissa ∧ ofDecimal d = .real (shortest d.negative b) := by
  unfold ofDecimal
  dsimp only
  split
  · exact .inr (.inl rfl)
  · next hdigits =>
    split
    · exact .inl rfl
    · split
      · exact .inl rfl
      · next b hb =>
        split
        · exact .inr (.inl rfl)
        · next hm =>
          refine .inr (.inr ⟨b, normal_of_nearest ?_ (powerPart_pos (by decide) _) hb,
            Nat.pos_of_ne_zero hm, rfl⟩)
          have hdigits : d.digits ≠ 0 := by
            simp only [Bool.or_eq_true, decide_eq_true_eq, not_or] at hdigits
            exact hdigits.1
          exact Nat.mul_pos (Nat.pos_of_ne_zero hdigits) (powerPart_pos (by decide) _)

end Number

end Concordance
