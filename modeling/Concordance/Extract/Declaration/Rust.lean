import Concordance.Extract.Declaration.Basic

/-!
# Declarations of Rust

Functions and methods, implementations as parts of their type, and the other items.
-/

namespace Concordance.Extract.Rust

/-- The kind of the symbol of an item that only has a name. -/
def itemKind? (kind : String) : Option SymbolKind :=
  if kind == "struct_item" || kind == "union_item" then some .classType
  else if kind == "enum_item" then some .enumeration
  else if kind == "trait_item" then some .interface
  else if kind == "type_item" then some .type
  else if kind == "mod_item" then some .moduleUnit
  else if kind == "const_item" || kind == "static_item" then some .constant
  else if kind == "macro_definition" then some .function
  else none

/-- The symbol of a function. A member that does not take the instance is static. -/
def functionSymbol (ctx : Context) (n : Node) (name : Tree) : Symbol :=
  let owner := n.ownerOf? ["impl_item", "trait_item"] ["declaration_list"]
  let params := n.tree.field? "parameters"
  let takesSelf := params.any fun p => (p.childOf? ["self_parameter"]).isSome
  let modifiers := n.tree.childOf? ["function_modifiers"]
  { symbol ctx n name (if owner.isSome then .method else .function) n.tree with
    documentation := leadingComment ctx n
    isAsync := modifiers.any fun m => Text.contains "async" (ctx.text m)
    isStatic := owner.isSome && !takesSelf
    visibility := visibility ctx n
    parameters := parameters ctx params
    returnType := returnType ctx n.tree ["return_type"]
    owner := ownerName ctx owner }

/-- The symbol of an implementation, named by its type. -/
def implementation (ctx : Context) (n : Node) : Option Symbol := do
  let type ← n.tree.field? "type"
  let name := type.target?.getD type
  return { symbol ctx n name .classType n.tree with
    interfaces := typeNames ctx (n.tree.field? "trait").toList }

/-- The symbol of another item. -/
def item (ctx : Context) (n : Node) (kind : SymbolKind) (name : Tree) : Symbol :=
  { symbol ctx n name kind n.tree with
    documentation := leadingComment ctx n
    visibility := visibility ctx n }

/-- The declarations of one node. -/
def declarations (ctx : Context) (n : Node) : List Symbol :=
  if ["function_item", "function_signature_item"].contains n.kind then
    ((n.tree.field? "name").map (functionSymbol ctx n)).toList
  else if n.kind == "impl_item" then (implementation ctx n).toList
  else match itemKind? n.kind with
    | none => []
    | some kind => ((n.tree.field? "name").map (item ctx n kind)).toList

end Concordance.Extract.Rust
