import Concordance.Number

/-!
# Numbers of documents

Integers in base ten, sixteen, eight and two, and reals. Between two digits there may be a single
underscore. A number in base ten may have a sign and has no leading zeros.

The readers take what stands at the start of a text and return the rest.
-/

namespace Concordance.Toml

/-- A digit of base eight. -/
def isOctal (c : Char) : Bool := '0' ≤ c && c ≤ '7'

/-- A digit of base two. -/
def isBinary (c : Char) : Bool := c == '0' || c == '1'

/-- A digit of base sixteen. -/
def isHex (c : Char) : Bool := (Chars.hexValue? c).isSome

/-- Further digits, a single underscore allowed before each. -/
def moreDigits (isDigit : Char → Bool) : List Char → List Char × List Char
  | [] => ([], [])
  | [c] => if isDigit c then ([c], []) else ([], [c])
  | c :: d :: rest =>
    if isDigit c then
      let (ds, rest) := moreDigits isDigit (d :: rest)
      (c :: ds, rest)
    else if c == '_' && isDigit d then
      let (ds, rest) := moreDigits isDigit rest
      (d :: ds, rest)
    else ([], c :: d :: rest)

/-- One digit or more. -/
def someDigits? (isDigit : Char → Bool) : List Char → Option (List Char × List Char)
  | [] => none
  | c :: rest =>
    if isDigit c then
      let (ds, rest) := moreDigits isDigit rest
      some (c :: ds, rest)
    else none

/-- The value of digits in a base. -/
def valueIn (base : Nat) (ds : List Char) : Nat :=
  ds.foldl (fun n c => base * n + (Chars.hexValue? c).getD 0) 0

/-- A number in base sixteen, eight or two, marked by a letter after a zero. -/
def based? : List Char → Option (Number × List Char)
  | '0' :: 'x' :: rest => (someDigits? isHex rest).map fun (ds, rest) => (.integer (valueIn 16 ds), rest)
  | '0' :: 'o' :: rest => (someDigits? isOctal rest).map fun (ds, rest) => (.integer (valueIn 8 ds), rest)
  | '0' :: 'b' :: rest => (someDigits? isBinary rest).map fun (ds, rest) => (.integer (valueIn 2 ds), rest)
  | _ => none

/-- The digits before the point: a zero, or digits that start with another. -/
def whole? : List Char → Option (List Char × List Char)
  | [] => none
  | c :: rest => if c == '0' then some (['0'], rest) else someDigits? Chars.isAsciiDigit (c :: rest)

/-- The digits after a point, if there are some. -/
def fraction? : List Char → Option (List Char × List Char)
  | '.' :: rest => someDigits? Chars.isAsciiDigit rest
  | _ => none

/-- The exponent after a letter E, if there is one. -/
def exponent? : List Char → Option (Int × List Char)
  | [] => none
  | mark :: rest =>
    if mark == 'e' || mark == 'E' then do
      let negative := rest.head? == some '-'
      let (ds, rest) ← someDigits? Chars.isAsciiDigit
        (if negative || rest.head? == some '+' then rest.drop 1 else rest)
      let n : Int := Chars.numeralValue ds
      some (if negative then -n else n, rest)
    else none

/-- A number in base ten: an integer, or a real if it has a fraction or an exponent. -/
def decimal? (cs : List Char) : Option (Number × List Char) := do
  let negative := cs.head? == some '-'
  let (whole, rest) ← whole? (if negative || cs.head? == some '+' then cs.drop 1 else cs)
  let fraction := fraction? rest
  let rest := (fraction.map Prod.snd).getD rest
  let exponent := exponent? rest
  let rest := (exponent.map Prod.snd).getD rest
  if fraction.isNone && exponent.isNone then
    let n : Int := Chars.numeralValue whole
    some (.integer (if negative then -n else n), rest)
  else
    let places := (fraction.map Prod.fst).getD []
    let e := (exponent.map Prod.fst).getD 0
    some (.ofDecimal ⟨negative, Chars.numeralValue (whole ++ places), e - places.length⟩, rest)

/-- A number that is not finite, with or without a sign. -/
def special? (cs : List Char) : Option (Number × List Char) :=
  let negative := cs.head? == some '-'
  let body := if negative || cs.head? == some '+' then cs.drop 1 else cs
  if "inf".toList.isPrefixOf body then some (.infinite negative, body.drop 3)
  else if "nan".toList.isPrefixOf body then some (.undefined, body.drop 3)
  else none

/-- A number. -/
def number? (cs : List Char) : Option (Number × List Char) :=
  based? cs <|> decimal? cs <|> special? cs

end Concordance.Toml
