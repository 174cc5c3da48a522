import Concordance.Language.Basic
import Concordance.Record.FileEntry
import Concordance.Tree.Node

/-!
# What extraction knows

The records of a source are read off its syntax tree node by node. Every reader is given the
source and what is stamped on the records, the `Context`.
-/

namespace Concordance.Extract

/-- What is known while a source is read: its bytes, the file and the language written on the
records, the family of its trees, and whether it is a script of a document. -/
structure Context where
  source : Bytes
  file : String
  language : String
  family : Family
  composite : Bool := false

/-- Why a declaration cannot be read: the entry of a list of base types that should name the first
is none, or a definition has no place in a module. -/
inductive Fault where
  | noBaseName
  | detached
  deriving DecidableEq, Inhabited

namespace Context

/-- The text of a tree. -/
def text (ctx : Context) (t : Tree) : String :=
  Source.textOf ctx.source t

/-- The text of a tree that may be missing. -/
def text? (ctx : Context) (t : Option Tree) : String :=
  Source.textOf? ctx.source t

/-- The text of a tree, if it is there and not empty. -/
def nonEmptyText? (ctx : Context) (t : Option Tree) : Option String :=
  Text.nonEmpty (ctx.text? t)

/-- The span of a tree. -/
def span (ctx : Context) (t : Tree) : Span :=
  .ofTree ctx.source t

/-- The row on which a tree starts. -/
def startRow (ctx : Context) (t : Tree) : Nat :=
  (Source.pointAt ctx.source t.start).row

/-- The row on which a tree ends. -/
def stopRow (ctx : Context) (t : Tree) : Nat :=
  (Source.pointAt ctx.source t.stop).row

end Context

end Concordance.Extract
