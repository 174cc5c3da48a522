import Concordance.Chars.Basic
import Concordance.Chars.Utf8
import Concordance.Tree.Basic

/-!
# Source texts

The contents of a file as bytes, with the points and the lines in them. A *row* is what stands
between two newline bytes; a *point* is the row of a byte, counted from zero, and how many bytes of
that row stand before it.
-/

namespace Concordance

/-- A place in a source: the row, counted from zero, and the bytes of the row before it. -/
structure Point where
  row : Nat
  column : Nat
  deriving DecidableEq, Inhabited

namespace Source

/-- The byte that ends a row. -/
def newline : UInt8 := 10

/-- The byte at which the row of a place starts. -/
def rowStart (source : Bytes) (offset : Nat) : Nat :=
  let before := source.take offset
  before.length - (before.reverse.takeWhile (· != newline)).length

/-- The row and column of a byte. -/
def pointAt (source : Bytes) (offset : Nat) : Point :=
  ⟨(source.take offset).count newline, offset - rowStart source offset⟩

/-- The bytes from `start` up to `stop`. -/
def slice (source : Bytes) (start stop : Nat) : Bytes :=
  (source.drop start).take (stop - start)

/-- The text between two bytes. -/
def textBetween (source : Bytes) (start stop : Nat) : String :=
  Utf8.text (slice source start stop)

/-- The bytes of a tree. -/
def bytesOf (source : Bytes) (t : Tree) : Bytes :=
  slice source t.start t.stop

/-- The text of a tree. -/
def textOf (source : Bytes) (t : Tree) : String :=
  textBetween source t.start t.stop

/-- The text of a tree that may be missing; nothing has no text. -/
def textOf? (source : Bytes) : Option Tree → String
  | none => ""
  | some t => textOf source t

/-- The text of a row without the blanks around it; nothing for a row that does not exist. -/
def rowText (source : Bytes) (row : Nat) : String :=
  match (Chars.splitOn '\n' (Utf8.decode source))[row]? with
  | none => ""
  | some line => .ofList (Chars.strip line)

end Source

end Concordance
