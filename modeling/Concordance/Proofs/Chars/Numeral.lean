import Concordance.Chars.Numeral
import Mathlib.Algebra.Group.Nat.Defs

/-!
# Numerals read back

The digits of a number, read from the left, give the number, and they have no zero at their start
unless they are a single one. The same holds of the last hexadecimal digits of a small number.
-/

namespace Concordance.Chars

theorem toNat_digitChar {n : Nat} (h : n < 10) : (digitChar n).toNat = 48 + n := by
  have hall : ∀ m, m < 10 → (digitChar m).toNat = 48 + m := by decide
  exact hall n h

/-- The digit of a number below ten has that number as its value. -/
@[simp]
theorem digitValue_digitChar {n : Nat} (h : n < 10) : digitValue (digitChar n) = n := by
  rw [digitValue, toNat_digitChar h, Nat.add_sub_cancel_left]

/-- It is an ASCII digit. -/
theorem isAsciiDigit_digitChar {n : Nat} (h : n < 10) : isAsciiDigit (digitChar n) := by
  have hall : ∀ m, m < 10 → isAsciiDigit (digitChar m) := by decide
  exact hall n h

/-- It is no zero if the number is none. -/
theorem digitChar_ne_zero {n : Nat} (h : n < 10) (hpos : 0 < n) : digitChar n ≠ '0' := by
  have hall : ∀ m, m < 10 → 0 < m → digitChar m ≠ '0' := by decide
  exact hall n h hpos

/-- Reading digits on goes on from the number read so far. -/
theorem foldl_digits (n : Nat) (cs : List Char) :
    cs.foldl (fun n c => 10 * n + digitValue c) n = n * 10 ^ cs.length + numeralValue cs := by
  induction cs generalizing n with
  | nil => simp [numeralValue]
  | cons c cs ih =>
      rw [numeralValue, List.foldl_cons, List.foldl_cons, ih, ih, List.length_cons, Nat.pow_succ,
        Nat.mul_zero, Nat.zero_add, Nat.add_mul, Nat.mul_comm 10 n, Nat.mul_assoc,
        Nat.mul_comm 10 (10 ^ cs.length), Nat.add_assoc]

/-- The value of digits put together. -/
theorem numeralValue_append (cs ds : List Char) :
    numeralValue (cs ++ ds) = numeralValue cs * 10 ^ ds.length + numeralValue ds := by
  rw [numeralValue, List.foldl_append, foldl_digits]
  rfl

/-- Zeros are worth nothing. -/
theorem numeralValue_replicate_zero (k : Nat) : numeralValue (List.replicate k '0') = 0 := by
  induction k with
  | zero => rfl
  | succ k ih => exact ih

/-- **Numerals read back.** -/
theorem numeralValue_numeral (n : Nat) : numeralValue (numeral n) = n := by
  fun_induction numeral n with
  | case1 n h =>
      rw [numeralValue, List.foldl_cons, List.foldl_nil, digitValue_digitChar h]
      omega
  | case2 n h ih =>
      have hlast : numeralValue [digitChar (n % 10)] = n % 10 := by
        rw [numeralValue, List.foldl_cons, List.foldl_nil, digitValue_digitChar (by omega)]
        omega
      rw [numeralValue_append, ih, hlast, List.length_singleton]
      omega

theorem numeral_zero : numeral 0 = ['0'] := by
  rw [numeral]
  rfl

/-- Every number has digits. -/
theorem numeral_ne_nil (n : Nat) : numeral n ≠ [] := by
  rw [numeral]
  split
  · exact List.cons_ne_nil _ _
  · exact List.append_ne_nil_of_right_ne_nil _ (List.cons_ne_nil _ _)

/-- A numeral is made of ASCII digits. -/
theorem isAsciiDigit_of_mem_numeral {n : Nat} {c : Char} (hc : c ∈ numeral n) :
    isAsciiDigit c := by
  fun_induction numeral n with
  | case1 n h =>
      rw [List.mem_singleton.mp hc]
      exact isAsciiDigit_digitChar h
  | case2 n h ih =>
      rcases List.mem_append.mp hc with hc | hc
      · exact ih hc
      · rw [List.mem_singleton.mp hc]
        exact isAsciiDigit_digitChar (by omega)

/-- A numeral of a positive number does not start with a zero. -/
theorem head?_numeral_ne_zero {n : Nat} (hpos : 0 < n) : (numeral n).head? ≠ some '0' := by
  fun_induction numeral n with
  | case1 n h =>
      intro hhead
      exact digitChar_ne_zero h hpos (Option.some.inj hhead)
  | case2 n h ih =>
      rw [List.head?_append]
      cases hhead : (numeral (n / 10)).head? with
      | none => exact absurd (List.head?_eq_none_iff.mp hhead) (numeral_ne_nil _)
      | some c => exact fun heq => ih (by omega) (hhead.trans heq)

/-- A numeral with more than one digit is of a number above nine. -/
theorem numeral_of_length {n : Nat} (h : 1 < (numeral n).length) : 10 ≤ n := by
  rw [numeral] at h
  split at h
  · exact absurd h (Nat.lt_irrefl 1)
  · omega

/-- The length of a numeral is that of the number, from above. -/
theorem lt_pow_length_numeral (n : Nat) : n < 10 ^ (numeral n).length := by
  fun_induction numeral n with
  | case1 n h => exact h
  | case2 n h ih =>
      rw [List.length_append, List.length_singleton, Nat.pow_succ]
      omega

/-- The length of a numeral is that of the number, from below. -/
theorem pow_length_numeral_le {n : Nat} (hpos : 0 < n) : 10 ^ (numeral n).length ≤ 10 * n := by
  fun_induction numeral n with
  | case1 n h =>
      rw [List.length_singleton]
      omega
  | case2 n h ih =>
      have ih := ih (by omega)
      rw [List.length_append, List.length_singleton, Nat.pow_succ]
      omega

/-- The hexadecimal digit of a number below sixteen has that number as its value. -/
theorem hexValue?_hexChar {n : Nat} (h : n < 16) : hexValue? (hexChar n) = some n := by
  have hall : ∀ m, m < 16 → hexValue? (hexChar m) = some m := by decide
  exact hall n h

end Concordance.Chars
