import Concordance.Record.Position

/-!
# Places in a document

A document is a text; a place in it is how many characters stand before it. Positions count lines
and bytes as those of sources do.
-/

namespace Concordance.Document

/-- How many bytes a text has. -/
def byteLength (cs : List Char) : Nat :=
  (Utf8.encode cs).length

/-- What stands before a place on its line. -/
def lineBefore (text : List Char) (place : Nat) : List Char :=
  ((text.take place).reverse.takeWhile (· != '\n')).reverse

/-- The position of a place. -/
def positionAt (text : List Char) (place : Nat) : Position :=
  let before := text.take place
  ⟨before.count '\n' + 1, byteLength (lineBefore text place), byteLength before⟩

/-- The span between two places. -/
def spanBetween (text : List Char) (start stop : Nat) : Span :=
  ⟨positionAt text start, positionAt text stop⟩

/-- The line on which a place stands, without the blanks around it. -/
def lineAt (text : List Char) (place : Nat) : List Char :=
  Chars.strip (lineBefore text place ++ Chars.firstLine (text.drop place))

end Concordance.Document
