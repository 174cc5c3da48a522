import Concordance.Extract.Declaration.Basic

/-!
# Declarations of the ECMAScript family

Functions, also those that a declarator is given as its value, top-level constants, methods,
classes, interfaces, type aliases, enumerations and namespaces.
-/

namespace Concordance.Extract.Ecmascript

/-- Kinds of trees that are classes. -/
def classKinds : List String :=
  ["class_declaration", "abstract_class_declaration", "class"]

/-- Kinds of values that are functions. -/
def functionValueKinds : List String :=
  ["arrow_function", "function_expression", "function", "generator_function"]

/-- Kinds of trees that are methods. -/
def methodKinds : List String :=
  ["method_definition", "abstract_method_signature", "method_signature"]

/-- The tree that a declarator spans: its statement, if it has no other declarator. -/
def declaratorSpan (n : Node) : Tree :=
  match n.parent? with
  | none => n.tree
  | some p =>
    if ["lexical_declaration", "variable_declaration"].contains p.kind &&
        (p.tree.childrenOf ["variable_declarator"]).length == 1 then p.tree
    else n.tree

/-- The symbol of a function; `function` is the tree with its parameters. -/
def functionSymbol (ctx : Context) (n : Node) (name function : Tree) : Symbol :=
  let kind := if ctx.composite && Text.isHookName (ctx.text name) then .hook else .function
  let whole := if n.kind == "variable_declarator" then declaratorSpan n else n.tree
  { symbol ctx n name kind whole with
    documentation := leadingComment ctx n.outerStatement
    isAsync := function.hasToken "async"
    parameters := parameters ctx (function.field? "parameters" <|> function.field? "parameter")
    returnType := returnType ctx function ["return_type"] }

/-- The declarations of a declarator: a function, or a constant at top level. -/
def declarator (ctx : Context) (n : Node) : List Symbol :=
  match n.tree.field? "name" with
  | none => []
  | some name =>
    if name.kind != "identifier" then []
    else match n.tree.field? "value" with
      | some value =>
        if functionValueKinds.contains value.kind then [functionSymbol ctx n name value]
        else constant n name
      | none => constant n name
where
  /-- The constant that the declarator declares, if it is one. -/
  constant (n : Node) (name : Tree) : List Symbol :=
    match n.parent? with
    | none => []
    | some p =>
      if p.tree.hasToken "const" && Text.isUpperConstant (ctx.text name) && n.isTopLevel then
        [{ symbol ctx n name .constant (declaratorSpan n) with
           documentation := leadingComment ctx n.outerStatement }]
      else []

/-- The kind of a method: an accessor is a property. -/
def methodKind (t : Tree) (name : String) : SymbolKind :=
  if t.hasToken "get" || t.hasToken "set" then .property
  else if name == "constructor" then .constructor
  else .method

/-- The symbol of a method. -/
def method (ctx : Context) (n : Node) (name : Tree) : Symbol :=
  let owner := n.ownerOf? (classKinds ++ ["interface_declaration"])
    ["class_body", "interface_body", "object_type"]
  { symbol ctx n name (methodKind n.tree (ctx.text name)) n.tree with
    documentation := leadingComment ctx n
    isAsync := n.tree.hasToken "async"
    isStatic := n.tree.hasToken "static"
    visibility := visibility ctx n
    parameters := parameters ctx (n.tree.field? "parameters")
    returnType := returnType ctx n.tree ["return_type"]
    owner := ownerName ctx owner }

/-- The base class that a clause of its own, or else the heritage itself, names. -/
def baseClass (ctx : Context) (heritage : Tree) : Except Fault (Option String) :=
  match heritage.childOf? ["extends_clause"] with
  | some clause =>
    match clause.field? "value" with
    | some value => (typeName ctx value).map some
    | none => firstTypeName ctx clause.namedChildren
  | none =>
    firstTypeName ctx (heritage.namedChildren.filter fun c => c.kind != "implements_clause")

/-- What a class or interface builds on. -/
def heritage (ctx : Context) (t : Tree) : Except Fault Heritage :=
  match t.childOf? ["class_heritage"] with
  | none =>
    match t.childOf? ["extends_type_clause"] with
    | none => .ok {}
    | some clause => .ok (.ofNames (typeNames ctx clause.namedChildren))
  | some h => do
    let base ← baseClass ctx h
    let interfaces :=
      match h.childOf? ["implements_clause"] with
      | none => []
      | some clause => typeNames ctx clause.namedChildren
    return { base, interfaces }

/-- The kind of the symbol of a declaration that only has a name and what it builds on. -/
def typeKind? (kind : String) : Option SymbolKind :=
  if classKinds.contains kind then some .classType
  else if kind == "interface_declaration" then some .interface
  else if kind == "type_alias_declaration" then some .type
  else if kind == "enum_declaration" then some .enumeration
  else if kind == "internal_module" then some .namespaceUnit
  else none

/-- The symbol of a type. -/
def typeSymbol (ctx : Context) (n : Node) (name : Tree) (kind : SymbolKind) :
    Except Fault Symbol := do
  let h ← if kind = .classType ∨ kind = .interface then heritage ctx n.tree else .ok {}
  return { symbol ctx n name kind n.tree with
    documentation := leadingComment ctx n.outerStatement
    base := h.base
    interfaces := h.interfaces }

/-- The declarations of one node. -/
def declarations (ctx : Context) (n : Node) : Except Fault (List Symbol) :=
  if ["function_declaration", "generator_function_declaration"].contains n.kind then
    match n.tree.field? "name" with
    | none => .ok []
    | some name => .ok [functionSymbol ctx n name n.tree]
  else if n.kind == "variable_declarator" then .ok (declarator ctx n)
  else if methodKinds.contains n.kind then
    match n.tree.field? "name" with
    | none => .ok []
    | some name => .ok [method ctx n name]
  else match typeKind? n.kind, n.tree.field? "name" with
    | some kind, some name => do return [← typeSymbol ctx n name kind]
    | _, _ => .ok []

end Concordance.Extract.Ecmascript
