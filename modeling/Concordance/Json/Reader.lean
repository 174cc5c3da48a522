import Concordance.Json.Token

/-!
# Reading JSON

The tokens of a document make its value with an explicit stack of the arrays and objects not yet
closed, so documents may nest to any depth. A key given twice counts once, in its first place, with
its last value.
-/

namespace Concordance.Json

/-- An array or object not yet closed; items are kept last first. -/
inductive Frame where
  | array (items : List Json)
  | object (fields : List (String × Json))
  | member (fields : List (String × Json)) (key : String)

/-- What may come next. -/
inductive Want where
  | value
  | valueOrClose
  | commaOrClose
  | key
  | keyOrClose
  | colon
  | nothing

/-- The state of the reader. -/
structure ReadState where
  stack : List Frame
  want : Want
  result : Option Json

/-- Puts a complete value in its place. -/
def place (stack : List Frame) (v : Json) : Option ReadState :=
  match stack with
  | [] => some ⟨[], .nothing, some v⟩
  | .array items :: rest => some ⟨.array (v :: items) :: rest, .commaOrClose, none⟩
  | .member fields key :: rest =>
    some ⟨.object (putField key v fields) :: rest, .commaOrClose, none⟩
  | .object _ :: _ => none

/-- Closes the innermost array. -/
def closeArray (stack : List Frame) : Option ReadState :=
  match stack with
  | .array items :: rest => place rest (.array items.reverse)
  | _ => none

/-- Closes the innermost object. -/
def closeObject (stack : List Frame) : Option ReadState :=
  match stack with
  | .object fields :: rest => place rest (.object fields)
  | _ => none

/-- Reads a token where a value may stand. -/
def readValue (stack : List Frame) : Token → Option ReadState
  | .atom v => place stack v
  | .text s => place stack (.text s)
  | .openArray => some ⟨.array [] :: stack, .valueOrClose, none⟩
  | .openObject => some ⟨.object [] :: stack, .keyOrClose, none⟩
  | _ => none

/-- Reads a token where a key must stand. -/
def readKey (stack : List Frame) : Token → Option ReadState
  | .text key =>
    match stack with
    | .object fields :: rest => some ⟨.member fields key :: rest, .colon, none⟩
    | _ => none
  | _ => none

/-- Reads one token. -/
def readStep (s : ReadState) (t : Token) : Option ReadState :=
  match s.want, t with
  | .value, t => readValue s.stack t
  | .valueOrClose, .closeArray => closeArray s.stack
  | .valueOrClose, t => readValue s.stack t
  | .commaOrClose, .comma =>
    match s.stack with
    | .array _ :: _ => some { s with want := .value }
    | .object _ :: _ => some { s with want := .key }
    | _ => none
  | .commaOrClose, .closeArray => closeArray s.stack
  | .commaOrClose, .closeObject => closeObject s.stack
  | .key, t => readKey s.stack t
  | .keyOrClose, .closeObject => closeObject s.stack
  | .keyOrClose, t => readKey s.stack t
  | .colon, .colon => some { s with want := .value }
  | _, _ => none

/-- The value of a document's tokens. -/
def ofTokens? (tokens : List Token) : Option Json := do
  let s ← tokens.foldlM readStep ⟨[], .value, none⟩
  s.result

/-- The value of a document's characters. -/
def ofChars? (cs : List Char) : Option Json := do
  ofTokens? (← tokens? cs)

/-- The value of a document. -/
def parse? (s : String) : Option Json :=
  ofChars? s.toList

end Concordance.Json
