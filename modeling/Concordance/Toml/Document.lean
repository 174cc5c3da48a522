import Concordance.Toml.Value

/-!
# Reading documents

A document is a sequence of statements, one a line: the header of a table, the header of a further table
of an array, or a key with its value. The values after a header belong to its table.

`parse?` reads the statements of a text and then carries them out; it fails if the text is no document.
-/

namespace Concordance.Toml

/-- A line of a document that says something. -/
inductive Statement where
  | header (path : List String)
  | element (path : List String)
  | assignment (key : List String) (value : Toml)
  deriving Inhabited

/-- What follows a mark. -/
def after? (mark : List Char) (cs : List Char) : Option (List Char) :=
  if mark.isPrefixOf cs then some (cs.drop mark.length) else none

/-- A key and its value. -/
def assignment? (cs : List Char) : Option (Statement × List Char) := do
  let (key, rest) ← key? cs
  let rest ← after? ['='] rest
  let (v, rest) ← value? (cs.length + 1) (skipSpaces rest)
  some (.assignment key v, rest)

/-- A statement. -/
def statement? : List Char → Option (Statement × List Char)
  | '[' :: '[' :: rest => do
    let (path, rest) ← key? (skipSpaces rest)
    some (.element path, ← after? [']', ']'] rest)
  | '[' :: rest => do
    let (path, rest) ← key? (skipSpaces rest)
    some (.header path, ← after? [']'] rest)
  | cs => assignment? cs

/-- What follows the end of a line, before which there may be a comment. -/
def lineEnd? (cs : List Char) : Option (List Char) :=
  match skipSpaces cs with
  | [] => some []
  | c :: rest =>
    if c == '\n' then some rest
    else if c == '#' then
      let comment := rest.takeWhile (· != '\n')
      if comment.any isControl then none else some (rest.drop (comment.length + 1))
    else none

/-- The statements of a text, read line by line within the given number of lines. -/
def statements? : Nat → List Char → Option (List Statement)
  | 0, _ => none
  | fuel + 1, cs =>
    match skipSpaces cs with
    | [] => some []
    | c :: rest =>
      if c == '\n' || c == '#' then do statements? fuel (← lineEnd? (c :: rest))
      else do
        let (s, rest) ← statement? (c :: rest)
        return s :: (← statements? fuel (← lineEnd? rest))

/-- A document in the making: its entries, the header that is open, and the number of the section. -/
structure Draft where
  entries : Entries := []
  header : List String := []
  sectionNumber : Nat := 0
  deriving Inhabited

/-- Carries a statement out. -/
def Draft.step? (d : Draft) : Statement → Option Draft
  | .header path => do return ⟨← open? path d.entries, path, d.sectionNumber + 1⟩
  | .element path => do return ⟨← extend? path d.entries, path, d.sectionNumber + 1⟩
  | .assignment key v => do
    return { d with entries := ← within? (assign? d.sectionNumber v key) d.header d.entries }

/-- The table of a document. -/
def parse? (text : List Char) : Option (List (String × Toml)) := do
  let cs := Chars.joinReturns text
  let statements ← statements? (cs.length + 1) cs
  let draft ← statements.foldlM Draft.step? {}
  some (valuesOf draft.entries)

end Concordance.Toml
