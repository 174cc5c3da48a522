import Concordance.Chars.Word
import Concordance.Document.Element
import Concordance.Document.Place
import Concordance.Record.FileEntry

/-!
# Markup of a document

The markup of a component is scanned for the components it uses and for the names of the functions
that handle its events. In one flavour the markup is the body of the outermost `template` element,
in the other it is all that is neither script nor style.
-/

namespace Concordance.Document

/-- How a document lays out its markup. -/
inductive Flavour where
  | vue
  | svelte
  deriving DecidableEq, Inhabited

/-- The markup of a document and the place where it starts. -/
structure Markup where
  text : List Char
  start : Nat
  deriving DecidableEq, Inhabited

/-- How many characters stand before the last place at which `word` opens the text, letter case set
aside. -/
def findLastIgnoringCase? (word : List Char) : List Char → Option Nat
  | [] => if word.isEmpty then some 0 else none
  | c :: rest =>
    match findLastIgnoringCase? word rest with
    | some n => some (n + 1)
    | none => if Chars.startsIgnoringCase word (c :: rest) then some 0 else none

/-- The body of the first `template` element that is closed, up to the last closing tag; `place` is
where the text starts. -/
def templateFrom? : Nat → List Char → Option Markup
  | _, [] => none
  | place, c :: rest =>
    let name := "template".toList
    let here := do
      let (attributes, inner) ← openingTag? name (c :: rest)
      let n ← findLastIgnoringCase? (closingTag name) inner
      return ⟨inner.take n, place + name.length + 1 + attributes.length + 1⟩
    here <|> templateFrom? (place + 1) rest

/-- The markup of a document. -/
def markup : Flavour → List Char → Markup
  | .vue, text => (templateFrom? 0 text).getD ⟨[], 0⟩
  | .svelte, text => ⟨blotOut "style".toList (blotOut "script".toList text), 0⟩

/-- A piece of markup at its place. -/
structure Piece where
  place : Nat
  text : List Char
  deriving DecidableEq, Inhabited

/-- The name of a component after a `<`: a capital, then letters and digits, and the end of the
name. -/
def componentName? (cs : List Char) : Option (List Char) :=
  let name := cs.takeWhile fun c => Chars.isAsciiLetter c || Chars.isAsciiDigit c
  let ends := (cs.drop name.length).head?.any fun c => Chars.isBlank c || c == '/' || c == '>'
  if name.head?.any Chars.isAsciiUpper && ends then some name else none

/-- The names of components in markup that starts at a place. -/
def componentsFrom : Nat → List Char → List Piece
  | _, [] => []
  | place, c :: rest =>
    let others := componentsFrom (place + 1) rest
    if c == '<' then
      match componentName? rest with
      | some name => ⟨place + 1, name⟩ :: others
      | none => others
    else others

/-- A binding of an event at the start of a text: how much stands before the handler, and the
handler as it is written. One mark closes it. -/
structure Binding where
  skipped : Nat
  handler : List Char

/-- What follows the name of an event and the sign `=` after it. -/
def afterEvent? (isEventChar : Char → Bool) (cs : List Char) : Option (List Char) :=
  let event := cs.takeWhile isEventChar
  if event.isEmpty then none
  else match Chars.stripStart (cs.drop event.length) with
    | '=' :: rest => some (Chars.stripStart rest)
    | _ => none

/-- What follows the mark that announces an event. -/
def afterEventMark? (cs : List Char) : Option (List Char) :=
  if ['@'].isPrefixOf cs then some (cs.drop 1)
  else if "v-on:".toList.isPrefixOf cs then some (cs.drop 5)
  else none

/-- A binding `@event="handler"` or `v-on:event="handler"`. -/
def quotedBinding? (cs : List Char) : Option Binding := do
  let rest ← afterEventMark? cs
  let rest ← afterEvent? (fun c => Chars.isWord c || c == ':' || c == '.' || c == '-') rest
  match rest with
  | [] => none
  | quote :: rest =>
    let handler := rest.takeWhile fun c => c != '"' && c != '\''
    if (quote == '"' || quote == '\'') && (rest.drop handler.length).head? == some quote then
      some ⟨cs.length - rest.length, handler⟩
    else none

/-- A binding `on:event={handler}`. -/
def bracedBinding? (before : Option Char) (cs : List Char) : Option Binding :=
  if Chars.isBorder before && "on:".toList.isPrefixOf cs then
    match afterEvent? (fun c => Chars.isWord c || c == '.' || c == '|' || c == '-') (cs.drop 3) with
    | some ('\x7b' :: rest) =>
      let handler := rest.takeWhile (· != '\x7d')
      if handler.length < rest.length then some ⟨cs.length - rest.length, handler⟩ else none
    | _ => none
  else none

/-- The binding at the start of a text after the character `before`. -/
def bindingHere? : Flavour → Option Char → List Char → Option Binding
  | .vue, _, cs => quotedBinding? cs
  | .svelte, before, cs => bracedBinding? before cs

/-- The handlers in markup that starts at a place, after the character `before`. What one binding
takes up is not looked at again. -/
def handlersFrom (flavour : Flavour) : Nat → Option Char → List Char → List Piece
  | _, _, [] => []
  | place, before, c :: rest =>
    match bindingHere? flavour before (c :: rest) with
    | none => handlersFrom flavour (place + 1) (some c) rest
    | some b =>
      let n := b.skipped + b.handler.length
      ⟨place + b.skipped, b.handler⟩ ::
        handlersFrom flavour (place + n + 1) ((c :: rest)[n]?) (rest.drop n)
termination_by _ _ cs => cs.length

/-- Whether a text is a plain name. -/
def isPlainName : List Char → Bool
  | [] => false
  | c :: rest =>
    (Chars.isAsciiLetter c || c == '_' || c == '$') &&
      rest.all fun d => Chars.isWord d || d == '$'

/-- A piece without the blanks around it. -/
def Piece.strip (p : Piece) : Piece :=
  ⟨p.place + (p.text.length - (Chars.stripStart p.text).length), Chars.strip p.text⟩

/-- The reference that a piece of markup makes in a document. -/
def Piece.reference (document : List Char) (file : String) (kind : ReferenceKind) (p : Piece) :
    Reference :=
  { name := .ofList p.text
    file
    span := spanBetween document p.place (p.place + p.text.length)
    context := .ofList (lineAt document p.place)
    kind }

/-- The references of the markup of a document: first the components, then the handlers that are
plain names. -/
def markupReferences (flavour : Flavour) (document : List Char) (file : String) :
    List Reference :=
  let m := markup flavour document
  let handlers := (handlersFrom flavour m.start none m.text).map Piece.strip
  (componentsFrom m.start m.text).map (Piece.reference document file .component) ++
    (handlers.filter fun p => isPlainName p.text).map (Piece.reference document file .call)

end Concordance.Document
