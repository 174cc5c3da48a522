import Concordance.Chars.Letter

/-!
# Decimal numerals

Natural numbers and integers as digits `0` to `9`.
-/

namespace Concordance.Chars

/-- The digit of a number below ten. -/
def digitChar (n : Nat) : Char :=
  .ofNat (48 + n)

/-- The value of a digit. -/
def digitValue (c : Char) : Nat :=
  c.toNat - 48

/-- The decimal numeral of a number, without leading zeros. -/
def numeral (n : Nat) : List Char :=
  if n < 10 then [digitChar n] else numeral (n / 10) ++ [digitChar (n % 10)]

/-- The number written by digits. -/
def numeralValue (cs : List Char) : Nat :=
  cs.foldl (fun n c => 10 * n + digitValue c) 0

/-- Whether a text is one or more digits. -/
def isNumeral (cs : List Char) : Bool :=
  !cs.isEmpty && cs.all isAsciiDigit

/-- The numeral of an integer, a minus sign before a negative one. -/
def integer : Int → List Char
  | .ofNat n => numeral n
  | .negSucc n => '-' :: numeral (n + 1)

/-- The numeral of a number, zeros before it up to the given width. -/
def paddedNumeral (width n : Nat) : List Char :=
  let ds := numeral n
  List.replicate (width - ds.length) '0' ++ ds

/-- The value of a hexadecimal digit. -/
def hexValue? (c : Char) : Option Nat :=
  if isAsciiDigit c then some (digitValue c)
  else if 'a' ≤ c && c ≤ 'f' then some (c.toNat - 87)
  else if 'A' ≤ c && c ≤ 'F' then some (c.toNat - 55)
  else none

/-- The hexadecimal digit of a number below sixteen. -/
def hexChar (n : Nat) : Char :=
  if n < 10 then .ofNat (48 + n) else .ofNat (87 + n)

/-- The last `width` hexadecimal digits of a number. -/
def hexNumeral : Nat → Nat → List Char
  | 0, _ => []
  | width + 1, n => hexNumeral width (n / 16) ++ [hexChar (n % 16)]

end Concordance.Chars
