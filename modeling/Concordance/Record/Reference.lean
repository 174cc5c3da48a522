import Concordance.Record.Position

/-!
# References

A reference is a place where a name is used. It carries the name only: which declaration is meant
is asked when the index is queried.
-/

namespace Concordance

/-- How a name is used. -/
inductive ReferenceKind where
  | call
  | read
  | write
  | imported
  | exported
  | type
  | base
  | implemented
  | instantiated
  | decorator
  | component
  | unknown
  deriving DecidableEq, Inhabited

namespace ReferenceKind

/-- All kinds. -/
def all : List ReferenceKind :=
  [.call, .read, .write, .imported, .exported, .type, .base, .implemented, .instantiated,
   .decorator, .component, .unknown]

/-- The name of a kind in records. -/
def name : ReferenceKind → String
  | .call => "call"
  | .read => "read"
  | .write => "write"
  | .imported => "import"
  | .exported => "export"
  | .type => "type"
  | .base => "extends"
  | .implemented => "implements"
  | .instantiated => "instantiate"
  | .decorator => "decorator"
  | .component => "component-usage"
  | .unknown => "unknown"

/-- The kind of a name; any other name is of the unknown kind. -/
def ofName (s : String) : ReferenceKind :=
  (all.find? fun k => k.name == s).getD .unknown

end ReferenceKind

/-- A use of a name; the context is the line it stands on. -/
structure Reference where
  name : String
  file : String
  span : Span
  context : String
  kind : ReferenceKind
  deriving DecidableEq, Inhabited

end Concordance
