import Concordance.Chars.Numeral

/-!
# Numbers of stored documents

A number is an integer of any size or a real of double precision. A real is kept as the shortest
decimal that names it: among all decimals that round to the same binary64 value, those with the
fewest digits, and of these the nearest to the value. So two reals are equal exactly when their
decimals are.

`Number.ofDecimal` rounds a written decimal to double precision: `nearest` finds the binary64 value,
`shortest` its decimal. Both compute in exact arithmetic.
-/

namespace Concordance

/-- A decimal `± digits · 10 ^ exponent`. -/
structure Decimal where
  negative : Bool
  digits : Nat
  exponent : Int
  deriving DecidableEq, Repr, Inhabited

/-- A number as stored documents have it. -/
inductive Number where
  | integer (value : Int)
  | real (decimal : Decimal)
  | infinite (negative : Bool)
  | undefined
  deriving DecidableEq, Repr, Inhabited

namespace Decimal

/-- Moves the zeros at the end of the digits into the exponent. -/
def trim (negative : Bool) (digits : Nat) (exponent : Int) : Decimal :=
  if h : digits = 0 then ⟨negative, 0, 0⟩
  else if digits % 10 = 0 then trim negative (digits / 10) (exponent + 1)
  else ⟨negative, digits, exponent⟩
termination_by digits
decreasing_by omega

/-- The quotient rounded to the nearest whole number, a half to the even one. -/
def roundQuotient (num den : Nat) : Nat :=
  let q := num / den
  let r := num % den
  if 2 * r < den then q else if den < 2 * r then q + 1 else q + q % 2

/-- The power of a base with an exponent that counts as zero below zero. -/
def powerPart (base : Nat) (e : Int) : Nat := Nat.pow base e.toNat

/-- The number of mantissas that a binary64 value can have, `2 ^ 53`. -/
def mantissas : Nat := 9007199254740992

/-- A binary64 value `mantissa · 2 ^ exponent`. -/
structure Binary where
  mantissa : Nat
  exponent : Int

/-- The binary64 value nearest to the positive quotient `num / den`, if it is not too large. -/
def nearest (num den : Nat) : Option Binary :=
  let guess : Int := (num.log2 : Int) - den.log2 - 53
  let isWide := mantissas * (den * powerPart 2 guess) ≤ num * powerPart 2 (-guess)
  let e := max (if isWide then guess + 1 else guess) (-1074)
  let m := roundQuotient (num * powerPart 2 (-e)) (den * powerPart 2 e)
  let b : Binary := if m = mantissas then ⟨mantissas / 2, e + 1⟩ else ⟨m, e⟩
  if 971 < b.exponent then none else some b

/-- Whether `d · 10 ^ p` rounds to the given value. The bounds are half way to the neighbours, and
belong to the value when its mantissa is even. -/
def names (b : Binary) (d : Nat) (p : Int) : Bool :=
  let below := if b.mantissa = mantissas / 2 && -1074 < b.exponent then 1 else 2
  let value := 4 * (d * powerPart 10 p) * powerPart 2 (-b.exponent)
  let unit := powerPart 10 (-p) * powerPart 2 b.exponent
  let low := (4 * b.mantissa - below) * unit
  let high := (4 * b.mantissa + 2) * unit
  if b.mantissa % 2 = 0 then low ≤ value && value ≤ high else low < value && value < high

/-- The multiple of `10 ^ p` that rounds to the value, the nearer one of two, if there is one. -/
def onGrid (b : Binary) (p : Int) : Option Nat :=
  let num := b.mantissa * powerPart 2 b.exponent * powerPart 10 (-p)
  let den := powerPart 2 (-b.exponent) * powerPart 10 p
  let d := num / den
  let below := d != 0 && names b d p
  let above := names b (d + 1) p
  if below && above then
    let r := 2 * (num % den)
    some (if r < den then d else if den < r then d + 1 else d + d % 2)
  else if below then some d
  else if above then some (d + 1)
  else none

/-- The exponents of the grids, the coarsest first. -/
def grids : List Int :=
  (List.range 660).map fun i : Nat => (310 : Int) - (i : Int)

/-- The decimal with the fewest digits that rounds to the value: the one on the coarsest grid. -/
def shortest (negative : Bool) (b : Binary) : Decimal :=
  (grids.findSome? fun p => (onGrid b p).map fun d => trim negative d p).getD ⟨negative, 0, 0⟩

end Decimal

namespace Number

/-- The real of double precision nearest to a written decimal. -/
def ofDecimal (d : Decimal) : Number :=
  let size := (Chars.numeral d.digits).length + d.exponent
  if d.digits = 0 || size < -330 then .real ⟨d.negative, 0, 0⟩
  else if 310 < size then .infinite d.negative
  else
    match Decimal.nearest (d.digits * Decimal.powerPart 10 d.exponent)
        (Decimal.powerPart 10 (-d.exponent)) with
    | none => .infinite d.negative
    | some b =>
      if b.mantissa = 0 then .real ⟨d.negative, 0, 0⟩ else .real (Decimal.shortest d.negative b)

/-- Zero as a real, the time of what never happened. -/
def zero : Number := .real ⟨false, 0, 0⟩

/-- Whether a number is zero. -/
def isZero : Number → Bool
  | .integer i => i == 0
  | .real d => d.digits == 0
  | _ => false

/-- Whether a number is greater than zero. -/
def isPositive : Number → Bool
  | .integer i => 0 < i
  | .real d => !d.negative && d.digits != 0
  | .infinite negative => !negative
  | .undefined => false

/-- Writes a decimal: in positions when the point falls at most three places before the digits and
at most sixteen behind their start, otherwise with an exponent of at least two digits. -/
def writeDecimal (d : Decimal) : List Char :=
  let ds := Chars.numeral d.digits
  let point : Int := if d.digits = 0 then 1 else ds.length + d.exponent
  let body :=
    if -4 < point && point ≤ 16 then
      if point ≤ 0 then '0' :: '.' :: (List.replicate (-point).toNat '0' ++ ds)
      else
        let whole := ds.take point.toNat
        let rest := ds.drop point.toNat
        whole ++ List.replicate (point.toNat - whole.length) '0' ++ '.' ::
          (if rest.isEmpty then ['0'] else rest)
    else
      let e := point - 1
      ds.take 1 ++ (if 1 < ds.length then '.' :: ds.drop 1 else []) ++ 'e' ::
        (if e < 0 then '-' else '+') :: Chars.paddedNumeral 2 e.natAbs
  if d.negative then '-' :: body else body

/-- How numbers that are not finite are spelled. -/
structure Spelling where
  infinite : String
  undefined : String

/-- Writes a number. -/
def write (spelling : Spelling) : Number → List Char
  | .integer i => Chars.integer i
  | .real d => writeDecimal d
  | .infinite negative => (if negative then ['-'] else []) ++ spelling.infinite.toList
  | .undefined => spelling.undefined.toList

end Number

end Concordance
