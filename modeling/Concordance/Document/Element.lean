import Concordance.Chars.Basic
import Concordance.Chars.Case

/-!
# Elements of a document

An element is `<name attributes>body</name>`, letter case set aside: the attributes end at the first
`>`, and the body at the first closing tag. Where no closing tag follows there is no element.

`segments` cuts a document into its elements of one name, found from the left, and the characters
between them.
-/

namespace Concordance.Document

/-- An element: what stands between the name and the end of the opening tag, and what stands between
the tags. -/
structure Element where
  attributes : List Char
  body : List Char
  deriving DecidableEq, Inhabited

/-- The closing tag of a name. -/
def closingTag (name : List Char) : List Char :=
  '<' :: '/' :: (name ++ ['>'])

/-- How many characters stand before the first place at which `word` opens the text, letter case set
aside. -/
def findIgnoringCase? (word : List Char) : List Char → Option Nat
  | [] => if word.isEmpty then some 0 else none
  | c :: rest =>
    if Chars.startsIgnoringCase word (c :: rest) then some 0
    else (findIgnoringCase? word rest).map (· + 1)

/-- The attributes and the rest after an opening tag at the start of a text. -/
def openingTag? (name cs : List Char) : Option (List Char × List Char) :=
  if Chars.startsIgnoringCase ('<' :: name) cs then
    let rest := cs.drop (name.length + 1)
    let attributes := rest.takeWhile (· != '>')
    match rest.drop attributes.length with
    | [] => none
    | _ :: inner => some (attributes, inner)
  else none

/-- The element at the start of a text. -/
def elementAt? (name cs : List Char) : Option Element := do
  let (attributes, inner) ← openingTag? name cs
  let n ← findIgnoringCase? (closingTag name) inner
  return ⟨attributes, inner.take n⟩

/-- How many characters there are before the body of an element. -/
def Element.bodyStart (name : List Char) (e : Element) : Nat :=
  name.length + 1 + e.attributes.length + 1

/-- How many characters an element has, its tags counted. -/
def Element.length (name : List Char) (e : Element) : Nat :=
  e.bodyStart name + e.body.length + (closingTag name).length

/-- An element is not empty. -/
theorem Element.length_pos (name : List Char) (e : Element) : 0 < e.length name := by
  simp only [Element.length, Element.bodyStart]
  omega

/-- A piece of a document: a single character, or an element with its text. -/
inductive Segment where
  | char (c : Char)
  | element (e : Element) (text : List Char)
  deriving DecidableEq, Inhabited

/-- The pieces of a document. -/
def segments (name : List Char) : List Char → List Segment
  | [] => []
  | c :: rest =>
    match elementAt? name (c :: rest) with
    | none => .char c :: segments name rest
    | some e =>
      .element e ((c :: rest).take (e.length name)) ::
        segments name ((c :: rest).drop (e.length name))
termination_by cs => cs.length
decreasing_by
  · simp
  · have := e.length_pos name
    simp only [List.length_drop, List.length_cons]
    omega

/-- The text of a piece. -/
def Segment.text : Segment → List Char
  | .char c => [c]
  | .element _ text => text

/-- An element with the place at which its opening tag starts. -/
structure Placed where
  place : Nat
  element : Element
  deriving DecidableEq, Inhabited

/-- The elements among the pieces that start at a place. -/
def placedElements : Nat → List Segment → List Placed
  | _, [] => []
  | place, .char _ :: rest => placedElements (place + 1) rest
  | place, .element e text :: rest => ⟨place, e⟩ :: placedElements (place + text.length) rest

/-- The elements of a name in a document. -/
def elements (name text : List Char) : List Placed :=
  placedElements 0 (segments name text)

/-- The document with its elements of a name blotted out: every character of them but the newlines
is a blank. -/
def blotOut (name text : List Char) : List Char :=
  (segments name text).flatMap fun
    | .char c => [c]
    | .element _ text => text.map fun c => if c == '\n' then '\n' else ' '

end Concordance.Document
