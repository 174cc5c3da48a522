import Concordance.Extract.Basic
import Concordance.Grammar

/-!
# Parsing a source

A source is read with a grammar: its tree is made, and the records are read off the tree. A grammar
that is missing gives nothing; a grammar may also have no tree for a source.
-/

namespace Concordance

/-- Why a source could not be read. -/
inductive ParseError where
  | noTree
  | fault (f : Extract.Fault)
  deriving DecidableEq, Inhabited

/-- The text of an error. -/
def ParseError.message : ParseError → String
  | .noTree => "no tree"
  | .fault .noBaseName => "tuple index out of range"
  | .fault .detached => "'NoneType' object has no attribute 'type'"

/-- Reads a source with a grammar. -/
def parseSource (grammars : Grammars) (grammar : String) (ctx : Extract.Context) :
    Except ParseError (Option Extraction) :=
  if grammars.isMissing grammar then .ok none
  else match grammars.tree? grammar ctx.source with
    | none => .error .noTree
    | some t => ((Extract.extract ctx t).mapError .fault).map some

end Concordance
