import Concordance.Chars.Quoted
import Concordance.Number
import Concordance.Toml.Moment

/-!
# Values of settings documents

A document in TOML is a table of values. A value has three written forms: `display` is its plain text,
`describe` the text by which lists and tables show it, and `write` its text in a document.
-/

namespace Concordance

/-- A value of a document. -/
inductive Toml where
  | bool (value : Bool)
  | number (value : Number)
  | text (value : String)
  | moment (value : Moment)
  | array (items : List Toml)
  | table (fields : List (String × Toml))
  deriving Inhabited

namespace Toml

/-- The spelling of numbers that are not finite. -/
def spelling : Number.Spelling := ⟨"inf", "nan"⟩

/-- Whether a value counts as yes: nothing empty and no zero does. -/
def isTrue : Toml → Bool
  | .bool b => b
  | .number n => !n.isZero
  | .text s => !s.isEmpty
  | .moment _ => true
  | .array items => !items.isEmpty
  | .table fields => !fields.isEmpty

mutual

/-- The text of a value inside of a list or a table. -/
def describe : Toml → List Char
  | .bool b => (if b then "True" else "False").toList
  | .number n => n.write spelling
  | .text s => Chars.quoted s.toList
  | .moment m => m.describe
  | .array items => '[' :: (describeItems items ++ [']'])
  | .table fields => '\x7b' :: (describeFields fields ++ ['\x7d'])

/-- The texts of items between commas. -/
def describeItems : List Toml → List Char
  | [] => []
  | [v] => describe v
  | v :: w :: rest => describe v ++ ", ".toList ++ describeItems (w :: rest)

/-- The texts of fields between commas. -/
def describeFields : List (String × Toml) → List Char
  | [] => []
  | [f] => describeField f
  | f :: g :: rest => describeField f ++ ", ".toList ++ describeFields (g :: rest)

/-- The text of a field: its quoted key and its value. -/
def describeField : String × Toml → List Char
  | (key, v) => Chars.quoted key.toList ++ ": ".toList ++ describe v

end

/-- The plain text of a value. -/
def display : Toml → String
  | .text s => s
  | .moment m => .ofList m.write
  | v => .ofList (describe v)

/-- A text between double quotes, where a backslash stands before a backslash and a double quote. -/
def writeText (s : String) : List Char :=
  '"' :: (s.toList.flatMap (fun c => if c == '\\' || c == '"' then ['\\', c] else [c]) ++ ['"'])

mutual

/-- The text of a value in a document. Moments and tables are written as texts. -/
def write : Toml → List Char
  | .bool b => (if b then "true" else "false").toList
  | .number n => n.write spelling
  | .text s => writeText s
  | .array items => '[' :: (writeItems items ++ [']'])
  | v => '"' :: (v.display.toList ++ ['"'])

/-- The items of an array between commas. -/
def writeItems : List Toml → List Char
  | [] => []
  | [v] => write v
  | v :: w :: rest => write v ++ ", ".toList ++ writeItems (w :: rest)

end

/-- The array of texts. -/
def texts (items : List String) : Toml := .array (items.map .text)

end Toml

end Concordance
