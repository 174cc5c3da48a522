/-!
# Character lists

A text is worked on as the list of its characters and kept as a `String`. This module has the
general operations: blanks, stripping, finding, replacing, splitting. A *blank* is any character
that Unicode calls white space, together with the four separators U+001C to U+001F.
-/

namespace Concordance.Chars

/-- A blank: white space of any kind. -/
def isBlank (c : Char) : Bool :=
  let n := c.toNat
  (9 ≤ n && n ≤ 13) || (0x1c ≤ n && n ≤ 0x20) || n == 0x85 || n == 0xa0 || n == 0x1680 ||
    (0x2000 ≤ n && n ≤ 0x200a) || n == 0x2028 || n == 0x2029 || n == 0x202f || n == 0x205f ||
    n == 0x3000

/-- Leaves out the characters at the end that satisfy `p`. -/
def dropEnd (p : Char → Bool) (cs : List Char) : List Char :=
  (cs.reverse.dropWhile p).reverse

/-- Leaves out the characters at both ends that satisfy `p`. -/
def dropBoth (p : Char → Bool) (cs : List Char) : List Char :=
  dropEnd p (cs.dropWhile p)

/-- The text without the blanks before it. -/
def stripStart (cs : List Char) : List Char :=
  cs.dropWhile isBlank

/-- The text without the blanks after it. -/
def stripEnd (cs : List Char) : List Char :=
  dropEnd isBlank cs

/-- The text without the blanks around it. -/
def strip (cs : List Char) : List Char :=
  dropBoth isBlank cs

/-- Where `needle` first occurs in a text whose own offset is `offset`. -/
def findFrom (needle : List Char) : List Char → Nat → Option Nat
  | [], offset => if needle.isEmpty then some offset else none
  | c :: rest, offset =>
    if needle.isPrefixOf (c :: rest) then some offset else findFrom needle rest (offset + 1)

/-- The offset at which `needle` first occurs. -/
def find? (needle cs : List Char) : Option Nat :=
  findFrom needle cs 0

/-- Whether `needle` occurs in the text. -/
def contains (needle cs : List Char) : Bool :=
  (find? needle cs).isSome

/-- The pieces between the characters that satisfy `p`, one more than there are such characters. -/
def splitAtEach (p : Char → Bool) (cs : List Char) : List (List Char) :=
  cs.foldr
    (fun c pieces =>
      if p c then [] :: pieces
      else match pieces with
        | [] => [[c]]
        | piece :: others => (c :: piece) :: others)
    [[]]

/-- The pieces between the occurrences of one character. -/
def splitOn (sep : Char) (cs : List Char) : List (List Char) :=
  splitAtEach (· == sep) cs

/-- The text up to, and without, the first newline. -/
def firstLine (cs : List Char) : List Char :=
  cs.takeWhile (· != '\n')

/-- A character that ends a line. -/
def isLineEnd (c : Char) : Bool :=
  let n := c.toNat
  (10 ≤ n && n ≤ 13) || (0x1c ≤ n && n ≤ 0x1e) || n == 0x85 || n == 0x2028 || n == 0x2029

/-- Drops each carriage return that stands before a newline. -/
def joinReturns : List Char → List Char
  | [] => []
  | [c] => [c]
  | c :: d :: rest =>
    if c == '\r' && d == '\n' then '\n' :: joinReturns rest else c :: joinReturns (d :: rest)

/-- The lines of a text, ended by any line end; a carriage return with a newline is one end, and
the last line needs none. -/
def lines (cs : List Char) : List (List Char) :=
  let pieces := splitAtEach isLineEnd (joinReturns cs)
  if pieces.getLast? == some [] then pieces.dropLast else pieces

/-- The maximal pieces without blanks. -/
def words (cs : List Char) : List (List Char) :=
  (splitAtEach isBlank cs).filter (fun piece => !piece.isEmpty)

/-- What stands before and after the last occurrence of `sep`; without one, nothing and all. -/
def splitLast (sep cs : List Char) : List Char × List Char :=
  match find? sep.reverse cs.reverse with
  | none => ([], cs)
  | some i => (cs.take (cs.length - i - sep.length), cs.drop (cs.length - i))

/-- Writes `new` for every occurrence of the character `old`. -/
def replaceChar (old : Char) (new : List Char) (cs : List Char) : List Char :=
  cs.flatMap fun c => if c == old then new else [c]

end Concordance.Chars

namespace Concordance.Text

/-- The text without the blanks around it. -/
def strip (s : String) : String :=
  .ofList (Chars.strip s.toList)

/-- Whether `needle` occurs in `s`. -/
def contains (needle s : String) : Bool :=
  Chars.contains needle.toList s.toList

/-- Whether `s` begins with `start`. -/
def startsWith (start s : String) : Bool :=
  start.toList.isPrefixOf s.toList

/-- All but the first `n` characters. -/
def drop (n : Nat) (s : String) : String :=
  .ofList (s.toList.drop n)

/-- The text up to, and without, the first newline. -/
def firstLine (s : String) : String :=
  .ofList (Chars.firstLine s.toList)

/-- A text that has characters, or nothing. -/
def nonEmpty (s : String) : Option String :=
  if s.isEmpty then none else some s

/-- What stands before and after the last occurrence of `sep`; without one, nothing and all. -/
def splitLast (sep s : String) : String × String :=
  let parts := Chars.splitLast sep.toList s.toList
  (.ofList parts.1, .ofList parts.2)

end Concordance.Text
