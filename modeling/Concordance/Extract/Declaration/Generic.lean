import Concordance.Extract.Declaration.C
import Concordance.Extract.Declaration.CSharp
import Concordance.Extract.Declaration.Ecmascript
import Concordance.Extract.Declaration.Go
import Concordance.Extract.Declaration.Jvm
import Concordance.Extract.Declaration.Php
import Concordance.Extract.Declaration.Python
import Concordance.Extract.Declaration.Ruby
import Concordance.Extract.Declaration.Rust

/-!
# Declarations of any family

The families without a reader of their own are read by the kinds of their trees alone; then
`declarations` reads a node as its family asks.
-/

namespace Concordance.Extract

/-- The kind of the symbol that the kind of a declaration suggests. -/
def suggestedKind? (kind : String) : Option SymbolKind :=
  if !Text.contains "declaration" kind && !Text.contains "definition" kind then none
  else if Text.contains "function" kind then some .function
  else if Text.contains "class" kind then some .classType
  else if Text.contains "protocol" kind || Text.contains "interface" kind then some .interface
  else none

/-- The declarations of one node by its kind alone. -/
def genericDeclarations (ctx : Context) (n : Node) : List Symbol :=
  match suggestedKind? n.kind, n.tree.field? "name" with
  | some kind, some name =>
    [{ symbol ctx n name kind n.tree with documentation := leadingComment ctx n }]
  | _, _ => []

/-- The declarations of one node. -/
def declarations (ctx : Context) (n : Node) : Except Fault (List Symbol) :=
  match ctx.family with
  | .ecmascript => Ecmascript.declarations ctx n
  | .python => Python.declarations ctx n
  | .go => .ok (Go.declarations ctx n)
  | .rust => .ok (Rust.declarations ctx n)
  | .jvm => Jvm.declarations ctx n
  | .csharp => .ok (CSharp.declarations ctx n)
  | .c => .ok (C.declarations ctx n)
  | .php => .ok (Php.declarations ctx n)
  | .ruby => Ruby.declarations ctx n
  | .generic => .ok (genericDeclarations ctx n)

end Concordance.Extract
