import Concordance.Chars.Word
import Concordance.Document.Element
import Concordance.Document.Place
import Concordance.Record.FileEntry

/-!
# Script regions

The scripts of a document are the bodies of its `script` elements. A script is read on its own; a
position in it is moved to the document by the lines and bytes before the script, and on its first
line by the column at which it starts.
-/

namespace Concordance.Document

/-- A script of a document: the attributes of its tag, its text, and the place where it starts. -/
structure Region where
  attributes : List Char
  text : List Char
  start : Nat
  origin : Position
  deriving DecidableEq, Inhabited

/-- The name of the elements that hold scripts. -/
def scriptName : List Char := "script".toList

/-- The scripts of a document. -/
def regions (text : List Char) : List Region :=
  (elements scriptName text).map fun p =>
    let start := p.place + p.element.bodyStart scriptName
    ⟨p.element.attributes, p.element.body, start, positionAt text start⟩

/-- A character of the name of a language. -/
def isLangChar (c : Char) : Bool :=
  Chars.isWord c || c == '-'

/-- The name of a language at the start of a text, perhaps after a quote. -/
def langName? (cs : List Char) : Option (List Char) :=
  let bare :=
    match cs with
    | '"' :: rest => rest
    | '\'' :: rest => rest
    | _ => cs
  let name := bare.takeWhile isLangChar
  if name.isEmpty then none else some name

/-- The value of the attribute `lang` at the start of a text. -/
def langHere? (cs : List Char) : Option (List Char) :=
  if Chars.startsIgnoringCase "lang".toList cs then
    match Chars.stripStart (cs.drop 4) with
    | '=' :: rest => langName? (Chars.stripStart rest)
    | _ => none
  else none

/-- The value of the first attribute `lang` after the character `before`. -/
def langAfter? : Option Char → List Char → Option (List Char)
  | _, [] => none
  | before, c :: rest =>
    let here := if Chars.isBorder before then langHere? (c :: rest) else none
    here <|> langAfter? (some c) rest

/-- Whether the attribute `setup` stands in the text after the character `before`. -/
def setupAfter : Option Char → List Char → Bool
  | _, [] => false
  | before, c :: rest =>
    let isFree := before.all Chars.isBlank
    let follows := ((c :: rest).drop 5).head?.all fun d => Chars.isBlank d || d == '='
    (isFree && "setup".toList.isPrefixOf (c :: rest) && follows) || setupAfter (some c) rest

namespace Region

/-- The language that the tag of a script names, in lower case. -/
def lang? (r : Region) : Option String :=
  (langAfter? none r.attributes).map fun name => .ofList (Chars.lower name)

/-- The grammar of a script. -/
def grammar (r : Region) : String :=
  match r.lang? with
  | some "ts" | some "typescript" => "typescript"
  | some "tsx" => "tsx"
  | _ => "javascript"

/-- Whether a script is the setup of its component. -/
def isSetup (r : Region) : Bool :=
  setupAfter none r.attributes

/-- How many lines of the document stand before the line on which a script starts. -/
def lineOffset (r : Region) : Int := r.origin.line - 1

/-- A position in a script as a position in the document. -/
def shift (r : Region) (p : Position) : Position :=
  { line := p.line + r.lineOffset
    column := if p.line = 1 then p.column + r.origin.column else p.column
    byteOffset := p.byteOffset + r.origin.byteOffset }

/-- A span in a script as a span in the document. -/
def shiftSpan (r : Region) (s : Span) : Span :=
  ⟨r.shift s.start, r.shift s.stop⟩

/-- What was read off a script, moved to the document. -/
def shiftExtraction (r : Region) (e : Extraction) : Extraction where
  symbols := e.symbols.map fun s =>
    { s with span := r.shiftSpan s.span, nameSpan := r.shiftSpan s.nameSpan }
  imports := e.imports.map fun i => { i with span := r.shiftSpan i.span }
  exports := e.exports.map fun x => { x with span := r.shiftSpan x.span }
  references := e.references.map fun u => { u with span := r.shiftSpan u.span }

end Region

end Concordance.Document
