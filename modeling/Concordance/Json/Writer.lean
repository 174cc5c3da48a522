import Concordance.Json.Basic

/-!
# Writing JSON

A document is written with a line for every item and field, indented by two blanks for each level,
or on one line. Characters beyond ASCII are written as they are.
-/

namespace Concordance.Json

/-- How numbers that are not finite are spelled in a document. -/
def spelling : Number.Spelling := ⟨"Infinity", "NaN"⟩

/-- A character inside a text. -/
def escapeChar (c : Char) : List Char :=
  if c == '"' then ['\\', '"']
  else if c == '\\' then ['\\', '\\']
  else if c == '\n' then ['\\', 'n']
  else if c == '\r' then ['\\', 'r']
  else if c == '\t' then ['\\', 't']
  else if c.toNat == 8 then ['\\', 'b']
  else if c.toNat == 12 then ['\\', 'f']
  else if c.toNat < 32 then '\\' :: 'u' :: Chars.hexNumeral 4 c.toNat
  else [c]

/-- A text between quotes. -/
def writeText (s : String) : List Char :=
  '"' :: (s.toList.flatMap escapeChar ++ ['"'])

/-- What stands between the parts of an array or object at a level: a new line, or nothing. -/
abbrev Layout := Nat → List Char

/-- One line for each part, two blanks for each level. -/
def indented : Layout := fun level => '\n' :: List.replicate (2 * level) ' '

/-- All on one line. -/
def oneLine : Layout := fun _ => []

mutual

/-- Writes a value at a level. -/
def writeValue (layout : Layout) (level : Nat) : Json → List Char
  | .null => "null".toList
  | .bool b => (if b then "true" else "false").toList
  | .number n => n.write spelling
  | .text s => writeText s
  | .array [] => ['[', ']']
  | .array (v :: rest) =>
    '[' :: (layout (level + 1) ++ writeValue layout (level + 1) v ++
      writeItems layout (level + 1) rest ++ layout level ++ [']'])
  | .object [] => ['\x7b', '\x7d']
  | .object (f :: rest) =>
    '\x7b' :: (layout (level + 1) ++ writeField layout (level + 1) f ++
      writeFields layout (level + 1) rest ++ layout level ++ ['\x7d'])

/-- Writes the items after the first. -/
def writeItems (layout : Layout) (level : Nat) : List Json → List Char
  | [] => []
  | v :: rest => ',' :: (layout level ++ writeValue layout level v ++ writeItems layout level rest)

/-- Writes the fields after the first. -/
def writeFields (layout : Layout) (level : Nat) : List (String × Json) → List Char
  | [] => []
  | f :: rest => ',' :: (layout level ++ writeField layout level f ++ writeFields layout level rest)

/-- Writes a field. -/
def writeField (layout : Layout) (level : Nat) : String × Json → List Char
  | (key, v) => writeText key ++ ':' :: ' ' :: writeValue layout level v

end

/-- The document of a value, indented. -/
def render (v : Json) : String :=
  .ofList (writeValue indented 0 v)

/-- The document of a value on one line. -/
def compact (v : Json) : String :=
  .ofList (writeValue oneLine 0 v)

end Concordance.Json
