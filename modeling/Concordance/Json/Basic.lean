import Concordance.Number

/-!
# JSON values

Objects are lists of fields in document order; the reader never gives a key twice.
-/

namespace Concordance

/-- A JSON value. -/
inductive Json where
  | null
  | bool (value : Bool)
  | number (value : Number)
  | text (value : String)
  | array (items : List Json)
  | object (fields : List (String × Json))
  deriving Inhabited

namespace Json

/-- The value of an integer. -/
def integer (i : Int) : Json := .number (.integer i)

/-- The value of a natural number. -/
def nat (n : Nat) : Json := .integer n

/-- A text, or null. -/
def optional : Option String → Json
  | none => .null
  | some s => .text s

/-- The array of texts. -/
def texts (items : List String) : Json := .array (items.map .text)

/-- Writes a field: in the place of an older field of that key, or at the end. -/
def putField (key : String) (value : Json) : List (String × Json) → List (String × Json)
  | [] => [(key, value)]
  | field :: rest =>
    if field.1 = key then (key, value) :: rest else field :: putField key value rest

/-- The field of an object; other values have none. -/
def field? (key : String) : Json → Option Json
  | .object fields => fields.lookup key
  | _ => none

end Json

end Concordance
