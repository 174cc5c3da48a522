import Concordance.Extract.Declaration.Basic

/-!
# Declarations of Go

Functions, methods with their receivers, types, and the constants of a file.
-/

namespace Concordance.Extract.Go

/-- The type on which a method is defined. -/
def receiverType (ctx : Context) (t : Tree) : Option String := do
  let receiver ← t.field? "receiver"
  return ctx.text (← receiver.firstOfKind? "type_identifier")

/-- The symbol of a function or method. -/
def functionSymbol (ctx : Context) (n : Node) (name : Tree) : Symbol :=
  let isMethod := n.kind == "method_declaration"
  { symbol ctx n name (if isMethod then .method else .function) n.tree with
    documentation := leadingComment ctx n
    parameters := parameters ctx (n.tree.field? "parameters")
    returnType := returnType ctx n.tree ["result"]
    owner := if isMethod then receiverType ctx n.tree else none }

/-- The kind of a type. -/
def typeKind (t : Tree) : SymbolKind :=
  if t.kind != "type_spec" then .type
  else match t.field? "type" with
    | none => .type
    | some u =>
      if u.kind == "struct_type" then .classType
      else if u.kind == "interface_type" then .interface
      else .type

/-- The symbol of a type; it spans its declaration, if that declares nothing else. -/
def typeSymbol (ctx : Context) (n : Node) (name : Tree) : Symbol :=
  let declaration := n.parent?.getD n
  let isOnly := declaration.kind == "type_declaration" && declaration.tree.namedChildren.length == 1
  { symbol ctx n name (typeKind n.tree) (if isOnly then declaration.tree else n.tree) with
    documentation := leadingComment ctx declaration }

/-- The constants of a specification at top level. -/
def constants (ctx : Context) (n : Node) : List Symbol :=
  match n.parent? with
  | none => []
  | some declaration =>
    if declaration.parentKind? == some "source_file" then
      (n.tree.fields "name").map fun name => symbol ctx n name .constant n.tree
    else []

/-- The declarations of one node. -/
def declarations (ctx : Context) (n : Node) : List Symbol :=
  if ["function_declaration", "method_declaration"].contains n.kind then
    ((n.tree.field? "name").map (functionSymbol ctx n)).toList
  else if ["type_spec", "type_alias"].contains n.kind then
    ((n.tree.field? "name").map (typeSymbol ctx n)).toList
  else if n.kind == "const_spec" then constants ctx n
  else []

end Concordance.Extract.Go
