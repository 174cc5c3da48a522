import Concordance.Record.Position

/-!
# Imports and exports

What a file takes from other modules, and what it gives to them by explicit statements.
-/

namespace Concordance

/-- How a module is brought in: by names, by its default, as a whole, or for its effects. -/
inductive ImportKind where
  | named
  | default
  | whole
  | sideEffect
  deriving DecidableEq, Inhabited

namespace ImportKind

/-- All kinds. -/
def all : List ImportKind := [.named, .default, .whole, .sideEffect]

/-- The name of a kind in records. -/
def name : ImportKind → String
  | .named => "named"
  | .default => "default"
  | .whole => "namespace"
  | .sideEffect => "side-effect"

/-- The kind of a name. -/
def ofName? (s : String) : Option ImportKind :=
  all.find? fun k => k.name == s

end ImportKind

/-- One name that an import brings in. -/
structure ImportSpecifier where
  name : String
  newName : Option String := none
  isDefault : Bool := false
  isWhole : Bool := false
  deriving DecidableEq, Inhabited

/-- The name under which the importing file knows it: the new name, if there is a nonempty one. -/
def ImportSpecifier.localName (s : ImportSpecifier) : String :=
  match s.newName with
  | none => s.name
  | some a => if a.isEmpty then s.name else a

/-- An import statement. -/
structure Import where
  source : String
  file : String
  span : Span
  specifiers : List ImportSpecifier := []
  kind : ImportKind := .named
  deriving DecidableEq, Inhabited

/-- How a name leaves a module: by itself, as the default, or handed on from another module. -/
inductive ExportKind where
  | named
  | default
  | handedOn
  deriving DecidableEq, Inhabited

namespace ExportKind

/-- All kinds. -/
def all : List ExportKind := [.named, .default, .handedOn]

/-- The name of a kind in records. -/
def name : ExportKind → String
  | .named => "named"
  | .default => "default"
  | .handedOn => "re-export"

/-- The kind of a name. -/
def ofName? (s : String) : Option ExportKind :=
  all.find? fun k => k.name == s

end ExportKind

/-- A name that a file exports. -/
structure Export where
  name : String
  file : String
  span : Span
  kind : ExportKind := .named
  source : Option String := none
  deriving DecidableEq, Inhabited

end Concordance
