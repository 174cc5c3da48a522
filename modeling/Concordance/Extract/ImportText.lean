import Concordance.Chars.Basic
import Concordance.Chars.Letter

/-!
# Texts of imports

The pieces of import statements that are read from their text: module paths between quotes, the last
part of a path, and the statements of the languages whose trees do not tell the parts apart.
-/

namespace Concordance.Text

/-- The text without blanks, and then without quotes and angle brackets, around it. -/
def unquote (s : String) : String :=
  .ofList (Chars.dropBoth (fun c => ['"', '\'', '`', '<', '>'].contains c) (Chars.strip s.toList))

/-- A character between the parts of a path. -/
def isPathMark (c : Char) : Bool :=
  ['.', '/', '\\', ':'].contains c

/-- The last part of a path, marks after it left out. -/
def lastSegment (s : String) : String :=
  .ofList ((s.toList.reverse.dropWhile isPathMark).takeWhile fun c => !isPathMark c).reverse

/-- Two parts of a path with `sep` between them; an empty part is left out. -/
def joinPath (sep first second : String) : String :=
  if first.isEmpty then second else if second.isEmpty then first else first ++ sep ++ second

/-- The first text, or the second if the first is empty. -/
def orElse (first second : String) : String :=
  if first.isEmpty then second else first

end Concordance.Text

namespace Concordance.Extract

/-- One blank or more, left out. -/
def blanks? : List Char → Option (List Char)
  | [] => none
  | c :: rest => if Chars.isBlank c then some (Chars.stripStart rest) else none

/-- What follows `word` at the start of a text. -/
def after? (word : String) (cs : List Char) : Option (List Char) :=
  if word.toList.isPrefixOf cs then some (cs.drop word.length) else none

/-- One word character or more, and the rest. -/
def word? (cs : List Char) : Option (List Char × List Char) :=
  let word := cs.takeWhile Chars.isWord
  if word.isEmpty then none else some (word, cs.dropWhile Chars.isWord)

/-- A name with dots at the start of a text. -/
def dottedName? (cs : List Char) : Option (List Char) :=
  let name := cs.takeWhile fun c => Chars.isWord c || c == '.'
  if name.isEmpty then none else some name

/-- What a statement brings in: a target, perhaps under another name. -/
structure Brought where
  newName : Option String
  target : String

/-- `new = target`. -/
def aliased? (cs : List Char) : Option Brought := do
  let (newName, rest) ← word? cs
  let rest ← after? "=" (Chars.stripStart rest)
  let target ← dottedName? (Chars.stripStart rest)
  return ⟨some (.ofList newName), .ofList target⟩

/-- A target with or without a new name. -/
def aliasedOrPlain? (cs : List Char) : Option Brought :=
  aliased? cs <|> (dottedName? cs).map fun target => ⟨none, .ofList target⟩

/-- A `using` directive at the start of a text; `static` may stand before the target. -/
def usingHere? (cs : List Char) : Option Brought := do
  let rest ← (after? "using" cs).bind blanks?
  ((after? "static" rest).bind blanks?).bind aliasedOrPlain? <|> aliasedOrPlain? rest

/-- The first `using` directive in a text. -/
def using? : List Char → Option Brought
  | [] => none
  | c :: rest => usingHere? (c :: rest) <|> using? rest

/-- A character of a path of namespaces. -/
def isNamespaceChar (c : Char) : Bool :=
  Chars.isWord c || c == '\\'

/-- `as name` after a path. -/
def asName? (cs : List Char) : Option String := do
  let rest ← blanks? cs
  let rest ← (after? "as" rest).bind blanks?
  let (name, _) ← word? rest
  return .ofList name

/-- The first path of namespaces in a text, with the name that may follow it. -/
def namespacePath? (cs : List Char) : Option Brought :=
  let start := cs.dropWhile fun c => !isNamespaceChar c
  let path := start.takeWhile isNamespaceChar
  if path.isEmpty then none
  else some ⟨asName? (start.dropWhile isNamespaceChar), .ofList path⟩

end Concordance.Extract
