import Concordance.Record.Position

/-!
# Symbols

A symbol is a declaration: a name of some kind at its place, with what its declaration says.
-/

namespace Concordance

/-- What a declaration declares. -/
inductive SymbolKind where
  | function
  | method
  | classType
  | interface
  | type
  | enumeration
  | var
  | constant
  | property
  | constructor
  | moduleUnit
  | namespaceUnit
  | component
  | hook
  | decorator
  | event
  | unknown
  deriving DecidableEq, Inhabited

namespace SymbolKind

/-- All kinds. -/
def all : List SymbolKind :=
  [.function, .method, .classType, .interface, .type, .enumeration, .var, .constant, .property,
   .constructor, .moduleUnit, .namespaceUnit, .component, .hook, .decorator, .event, .unknown]

/-- The name of a kind in records. -/
def name : SymbolKind → String
  | .function => "function"
  | .method => "method"
  | .classType => "class"
  | .interface => "interface"
  | .type => "type"
  | .enumeration => "enum"
  | .var => "variable"
  | .constant => "constant"
  | .property => "property"
  | .constructor => "constructor"
  | .moduleUnit => "module"
  | .namespaceUnit => "namespace"
  | .component => "component"
  | .hook => "hook"
  | .decorator => "decorator"
  | .event => "event"
  | .unknown => "unknown"

/-- The kind of a name; any other name is of the unknown kind. -/
def ofName (s : String) : SymbolKind :=
  (all.find? fun k => k.name == s).getD .unknown

/-- Kinds whose declarations have members. -/
def isClassLike : SymbolKind → Bool
  | .classType | .interface | .enumeration | .moduleUnit | .namespaceUnit | .component => true
  | _ => false

/-- Kinds whose bodies run when they are called. -/
def isCallable : SymbolKind → Bool
  | .function | .method | .constructor | .hook => true
  | _ => false

end SymbolKind

/-- A parameter of a callable declaration. -/
structure Parameter where
  name : String
  type : Option String := none
  defaultValue : Option String := none
  rest : Bool := false
  optional : Bool := false
  deriving DecidableEq, Inhabited

/-- A declaration. `base` and `interfaces` are the types it builds on, `owner` is the type it is
a member of, `members` are the names of its own members. -/
structure Symbol where
  name : String
  kind : SymbolKind
  span : Span
  nameSpan : Span
  file : String
  language : String
  signature : Option String := none
  documentation : Option String := none
  exported : Bool := false
  isAsync : Bool := false
  isStatic : Bool := false
  visibility : Option String := none
  parameters : List Parameter := []
  returnType : Option String := none
  base : Option String := none
  interfaces : List String := []
  owner : Option String := none
  members : List String := []
  deriving DecidableEq, Inhabited

namespace Symbol

/-- The owner, if it has a name. -/
def namedOwner (s : Symbol) : Option String :=
  s.owner.bind fun o => if o.isEmpty then none else some o

/-- The name with the name of the owner before it. -/
def qualifiedName (s : Symbol) : String :=
  match s.namedOwner with
  | none => s.name
  | some o => o ++ "." ++ s.name

/-- The name of the symbol as a node of a call graph. -/
def nodeId (s : Symbol) : String :=
  s.file ++ ":" ++ s.qualifiedName

end Symbol

end Concordance
