import Concordance.Extract.Declaration.Basic

/-!
# Declarations of PHP

Functions, methods, types, namespaces and constants.
-/

namespace Concordance.Extract.Php

/-- The kinds of declarations of types, with the kinds of their symbols. -/
def typeKinds : List (String × SymbolKind) :=
  [("class_declaration", .classType), ("interface_declaration", .interface),
   ("trait_declaration", .interface), ("enum_declaration", .enumeration)]

/-- The name of the type of which a declaration is a member. -/
def owner (ctx : Context) (n : Node) : Option String :=
  ownerName ctx (n.ownerOf? (typeKinds.map Prod.fst) ["declaration_list"])

/-- The kind of the symbol of a callable. -/
def callableKind (kind name : String) : SymbolKind :=
  if kind == "function_definition" then .function
  else if name == "__construct" then .constructor
  else .method

/-- The symbol of a function or method. -/
def callable (ctx : Context) (n : Node) (name : Tree) : Symbol :=
  { symbol ctx n name (callableKind n.kind (ctx.text name)) n.tree with
    documentation := leadingComment ctx n
    isStatic := (n.tree.childOf? ["static_modifier"]).isSome
    visibility := visibility ctx n
    parameters := parameters ctx (n.tree.field? "parameters")
    returnType := returnType ctx n.tree ["return_type"]
    owner := owner ctx n }

/-- The names of the types that a clause of a declaration lists. -/
def clauseNames (ctx : Context) (t : Tree) (clause : String) : List String :=
  match t.childOf? [clause] with
  | none => []
  | some c => typeNames ctx c.namedChildren

/-- The symbol of a type. -/
def typeSymbol (ctx : Context) (n : Node) (kind : SymbolKind) (name : Tree) : Symbol :=
  { symbol ctx n name kind n.tree with
    documentation := leadingComment ctx n
    base := (clauseNames ctx n.tree "base_clause").head?
    interfaces := clauseNames ctx n.tree "class_interface_clause" }

/-- The constants of a declaration. -/
def constants (ctx : Context) (n : Node) : List Symbol :=
  let names := (n.tree.childrenOf ["const_element"]).filterMap (Tree.childOf? ["name"])
  names.map fun name => { symbol ctx n name .constant n.tree with owner := owner ctx n }

/-- The declarations of one node. -/
def declarations (ctx : Context) (n : Node) : List Symbol :=
  if ["function_definition", "method_declaration"].contains n.kind then
    ((n.tree.field? "name").map (callable ctx n)).toList
  else match typeKinds.lookup n.kind with
    | some kind => ((n.tree.field? "name").map (typeSymbol ctx n kind)).toList
    | none =>
      if n.kind == "namespace_definition" then
        ((n.tree.field? "name").map fun name => symbol ctx n name .namespaceUnit n.tree).toList
      else if n.kind == "const_declaration" then constants ctx n
      else []

end Concordance.Extract.Php
