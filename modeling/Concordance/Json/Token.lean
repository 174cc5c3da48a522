import Concordance.Json.Basic

/-!
# JSON tokens

The text of a JSON document as tokens, read character by character. A token that is neither a mark
nor a text is an *atom*: the characters up to the next mark, quote or blank, which must spell
`null`, a boolean or a number.
-/

namespace Concordance.Json

/-- A token of a JSON document. -/
inductive Token where
  | openArray
  | closeArray
  | openObject
  | closeObject
  | comma
  | colon
  | text (value : String)
  | atom (value : Json)
  deriving Inhabited

/-- What the reader of tokens is in the middle of; characters are kept last first, those of a text
as code points. -/
inductive Lexing where
  | between
  | atom (chars : List Char)
  | text (codes : List Nat)
  | escape (codes : List Nat)
  | unicode (codes : List Nat) (lacking value : Nat)

/-- The state of the reader of tokens: the tokens so far, last first, and what it is in. -/
structure LexState where
  tokens : List Token
  inside : Lexing

/-- The characters of code points; two surrogates that make a pair are one character. -/
def joinSurrogates : List Nat → List Char
  | [] => []
  | [n] => [charOf n]
  | high :: low :: rest =>
    if 0xd800 ≤ high && high ≤ 0xdbff && 0xdc00 ≤ low && low ≤ 0xdfff then
      .ofNat (0x10000 + (high - 0xd800) * 0x400 + (low - 0xdc00)) :: joinSurrogates rest
    else charOf high :: joinSurrogates (low :: rest)
where
  charOf (n : Nat) : Char := if n.isValidChar then .ofNat n else '�'

/-- The digits at the start of a text and the rest. -/
def spanDigits (cs : List Char) : List Char × List Char :=
  (cs.takeWhile Chars.isAsciiDigit, cs.dropWhile Chars.isAsciiDigit)

/-- The exponent written at the end of a number; nothing stands for zero. -/
def exponent? : List Char → Option Int
  | [] => some 0
  | mark :: rest =>
    if mark == 'e' || mark == 'E' then
      let negative := rest.head? == some '-'
      let digits := if negative || rest.head? == some '+' then rest.drop 1 else rest
      if Chars.isNumeral digits then
        let n : Int := Chars.numeralValue digits
        some (if negative then -n else n)
      else none
    else none

/-- The number a text spells. -/
def number? (cs : List Char) : Option Number :=
  let negative := cs.head? == some '-'
  let (whole, rest) := spanDigits (if negative then cs.drop 1 else cs)
  if whole.isEmpty || (1 < whole.length && whole.head? == some '0') then none
  else if rest.isEmpty then
    let n : Int := Chars.numeralValue whole
    some (.integer (if negative then -n else n))
  else
    let point := rest.head? == some '.'
    let (fraction, rest) := spanDigits (if point then rest.drop 1 else rest)
    if point == fraction.isEmpty then none
    else do
      let e ← exponent? rest
      some (.ofDecimal ⟨negative, Chars.numeralValue (whole ++ fraction), e - fraction.length⟩)

/-- The value an atom spells. -/
def atom? (cs : List Char) : Option Json :=
  if cs = "null".toList then some .null
  else if cs = "true".toList then some (.bool true)
  else if cs = "false".toList then some (.bool false)
  else if cs = "NaN".toList then some (.number .undefined)
  else if cs = "Infinity".toList then some (.number (.infinite false))
  else if cs = "-Infinity".toList then some (.number (.infinite true))
  else (number? cs).map .number

/-- The token of a mark. -/
def mark? (c : Char) : Option Token :=
  if c == '[' then some .openArray
  else if c == ']' then some .closeArray
  else if c == '\x7b' then some .openObject
  else if c == '\x7d' then some .closeObject
  else if c == ',' then some .comma
  else if c == ':' then some .colon
  else none

/-- A blank between tokens. -/
def isSpace (c : Char) : Bool :=
  c == ' ' || c == '\t' || c == '\n' || c == '\r'

/-- Reads a character between tokens. -/
def lexBetween (tokens : List Token) (c : Char) : LexState :=
  match mark? c with
  | some token => ⟨token :: tokens, .between⟩
  | none =>
    if isSpace c then ⟨tokens, .between⟩
    else if c == '"' then ⟨tokens, .text []⟩
    else ⟨tokens, .atom [c]⟩

/-- The code point of a one-letter escape. -/
def escaped? (c : Char) : Option Nat :=
  if c == '"' || c == '\\' || c == '/' then some c.toNat
  else if c == 'b' then some 8
  else if c == 'f' then some 12
  else if c == 'n' then some 10
  else if c == 'r' then some 13
  else if c == 't' then some 9
  else none

/-- Reads one character. -/
def lexStep (s : LexState) (c : Char) : Option LexState :=
  match s.inside with
  | .between => some (lexBetween s.tokens c)
  | .atom chars =>
    if (mark? c).isSome || isSpace c || c == '"' then do
      let value ← atom? chars.reverse
      some (lexBetween (.atom value :: s.tokens) c)
    else some { s with inside := .atom (c :: chars) }
  | .text codes =>
    if c == '"' then some ⟨.text (.ofList (joinSurrogates codes.reverse)) :: s.tokens, .between⟩
    else if c == '\\' then some { s with inside := .escape codes }
    else if c.toNat < 32 then none
    else some { s with inside := .text (c.toNat :: codes) }
  | .escape codes =>
    if c == 'u' then some { s with inside := .unicode codes 4 0 }
    else do
      let n ← escaped? c
      some { s with inside := .text (n :: codes) }
  | .unicode codes lacking value => do
    let n ← Chars.hexValue? c
    let value := value * 16 + n
    if lacking ≤ 1 then some { s with inside := .text (value :: codes) }
    else some { s with inside := .unicode codes (lacking - 1) value }

/-- The tokens of a text. -/
def tokens? (cs : List Char) : Option (List Token) := do
  let s ← cs.foldlM lexStep ⟨[], .between⟩
  match s.inside with
  | .between => some s.tokens.reverse
  | .atom chars => do
    let value ← atom? chars.reverse
    some (.atom value :: s.tokens).reverse
  | _ => none

end Concordance.Json
