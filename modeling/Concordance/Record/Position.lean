import Concordance.Source

/-!
# Positions and spans

A position counts lines from one and columns, in bytes, from zero; it also knows its byte. A span
runs from one position to another. Both are records of an index, so their numbers may be any
integers.
-/

namespace Concordance

/-- A place in a file: the line, counted from one, the column in bytes, and the byte. -/
structure Position where
  line : Int
  column : Int
  byteOffset : Int := 0
  deriving DecidableEq, Inhabited

namespace Position

/-- The position of a byte of a source. -/
def inSource (source : Bytes) (offset : Nat) : Position :=
  let p := Source.pointAt source offset
  ⟨p.row + 1, p.column, offset⟩

/-- Whether the first position comes before the second: by line, then column, then byte. -/
def before (p q : Position) : Bool :=
  p.line < q.line ||
    (p.line == q.line &&
      (p.column < q.column || (p.column == q.column && p.byteOffset < q.byteOffset)))

/-- Whether the first position is not after the second by line and column. -/
def notAfter (p q : Position) : Bool :=
  p.line < q.line || (p.line == q.line && p.column ≤ q.column)

end Position

/-- A stretch of a file. -/
structure Span where
  start : Position
  stop : Position
  deriving DecidableEq, Inhabited

namespace Span

/-- The span of a tree in its source. -/
def ofTree (source : Bytes) (t : Tree) : Span :=
  ⟨.inSource source t.start, .inSource source t.stop⟩

/-- Whether another span lies inside this one. -/
def contains (s other : Span) : Bool :=
  s.start.notAfter other.start && other.stop.notAfter s.stop

/-- How many lines the end is below the start. -/
def lines (s : Span) : Int :=
  s.stop.line - s.start.line

end Span

end Concordance
