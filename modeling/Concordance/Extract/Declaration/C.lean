import Concordance.Extract.Declaration.Basic

/-!
# Declarations of C and C++

Functions and methods, also those defined outside their class, classes, enumerations, namespaces,
type definitions, and macros that are constants.
-/

namespace Concordance.Extract.C

/-- Kinds of trees that are classes. -/
def classKinds : List String :=
  ["struct_specifier", "class_specifier", "union_specifier"]

/-- The class that the name of a function is qualified by. -/
def qualifier (ctx : Context) (declarator : Tree) : Option String :=
  if declarator.kind == "qualified_identifier" then (declarator.field? "scope").map ctx.text
  else none

/-- The kind of a function of the given owner. -/
def functionKind (name : String) : Option String → SymbolKind
  | none => .function
  | some owner => if name == (Text.splitLast "::" owner).2 then .constructor else .method

/-- The symbol of a function definition. -/
def functionSymbol (ctx : Context) (n : Node) : Option Symbol := do
  let outer ← (n.tree.field? "declarator").bind Tree.functionDeclarator?
  let inner ← outer.field? "declarator"
  let name ←
    if ["destructor_name", "operator_name"].contains inner.kind then some inner else inner.target?
  let owner :=
    match n.ownerOf? classKinds ["field_declaration_list"] with
    | none => qualifier ctx inner
    | some t => ownerName ctx (some t)
  return { symbol ctx n name (functionKind (ctx.text name) owner) n.tree with
    documentation := leadingComment ctx n
    isStatic := hasModifier ctx n.tree "static"
    visibility := visibility ctx n
    parameters := parameters ctx (outer.field? "parameters")
    returnType := (n.tree.field? "type").map ctx.text
    owner }

/-- The symbol of a class or enumeration that has a body. -/
def classSymbol (ctx : Context) (n : Node) : Option Symbol := do
  let name ← n.tree.field? "name"
  let _ ← n.tree.field? "body"
  let bases :=
    match n.tree.childOf? ["base_class_clause"] with
    | none => []
    | some clause => clause.namedChildren.filter fun c => c.kind != "access_specifier"
  let h := Heritage.ofNames (typeNames ctx bases)
  let kind := if n.kind == "enum_specifier" then .enumeration else .classType
  return { symbol ctx n name kind n.tree with
    documentation := leadingComment ctx n
    base := h.base
    interfaces := h.interfaces }

/-- The types that a type definition names. -/
def typeDefinitions (ctx : Context) (n : Node) : List Symbol :=
  ((n.tree.fields "declarator").filterMap Tree.target?).map fun name =>
    { symbol ctx n name .type n.tree with documentation := leadingComment ctx n }

/-- The constant that a macro defines. -/
def macroConstant (ctx : Context) (n : Node) : List Symbol :=
  match n.tree.field? "name" with
  | none => []
  | some name =>
    if Text.isUpperConstant (ctx.text name) then [symbol ctx n name .constant n.tree] else []

/-- The declarations of one node. -/
def declarations (ctx : Context) (n : Node) : List Symbol :=
  if n.kind == "function_definition" then (functionSymbol ctx n).toList
  else if classKinds.contains n.kind || n.kind == "enum_specifier" then (classSymbol ctx n).toList
  else if n.kind == "namespace_definition" then
    ((n.tree.field? "name").map fun name => symbol ctx n name .namespaceUnit n.tree).toList
  else if n.kind == "type_definition" then typeDefinitions ctx n
  else if n.kind == "preproc_def" then macroConstant ctx n
  else []

end Concordance.Extract.C
