import Concordance.Extract.Declaration.Basic

/-!
# Declarations of the JVM family

Types, methods and constants of Java and Kotlin.
-/

namespace Concordance.Extract.Jvm

/-- The kinds of declarations of types, with the kinds of their symbols. -/
def typeKinds : List (String × SymbolKind) :=
  [("class_declaration", .classType), ("record_declaration", .classType),
   ("object_declaration", .classType), ("interface_declaration", .interface),
   ("annotation_type_declaration", .interface), ("enum_declaration", .enumeration)]

/-- Kinds of trees that hold the members of a type. -/
def bodyKinds : List String :=
  ["class_body", "interface_body", "enum_body", "enum_body_declarations", "enum_class_body"]

/-- The type of which a declaration is a member. -/
def owner? (n : Node) : Option Tree :=
  n.ownerOf? (typeKinds.map Prod.fst) bodyKinds

/-- The kind of the symbol of a type: interfaces and enumerations may be written as classes. -/
def typeKind (ctx : Context) (t : Tree) (kind : SymbolKind) : SymbolKind :=
  if t.kind != "class_declaration" then kind
  else if t.hasToken "interface" then .interface
  else if (Chars.words (modifierText ctx t).toList).contains "enum".toList then .enumeration
  else kind

/-- The names of the interfaces of a type. -/
def interfaceNames (ctx : Context) (t : Tree) : List String :=
  match t.field? "interfaces" <|> t.childOf? ["extends_interfaces"] with
  | none => []
  | some clause => typeNames ctx ((clause.childOf? ["type_list"]).getD clause).namedChildren

/-- What a type builds on; the first interface of an interface is its base. -/
def heritage (ctx : Context) (t : Tree) : Except Fault Heritage := do
  let base ← firstTypeName ctx ((t.field? "superclass").map Tree.namedChildren |>.getD [])
  match t.kind == "interface_declaration", interfaceNames ctx t with
  | true, first :: rest => return ⟨some first, rest⟩
  | _, names => return ⟨base, names⟩

/-- The symbol of a type. -/
def typeSymbol (ctx : Context) (n : Node) (kind : SymbolKind) (name : Tree) :
    Except Fault Symbol := do
  let h ← heritage ctx n.tree
  return { symbol ctx n name (typeKind ctx n.tree kind) n.tree with
    documentation := leadingComment ctx n
    isStatic := hasModifier ctx n.tree "static"
    visibility := visibility ctx n
    base := h.base
    interfaces := h.interfaces
    owner := ownerName ctx (owner? n) }

/-- The kind of the symbol of a callable. -/
def callableKind (n : Node) : SymbolKind :=
  if n.kind == "constructor_declaration" then .constructor
  else if (owner? n).isSome || n.kind == "method_declaration" then .method
  else .function

/-- The symbol of a callable. -/
def callable (ctx : Context) (n : Node) (name : Tree) : Symbol :=
  let params := n.tree.field? "parameters" <|> n.tree.childOf? ["function_value_parameters"]
  { symbol ctx n name (callableKind n) n.tree with
    documentation := leadingComment ctx n
    isAsync := hasModifier ctx n.tree "suspend"
    isStatic := hasModifier ctx n.tree "static"
    visibility := visibility ctx n
    parameters := parameters ctx params
    returnType := returnType ctx n.tree ["type"]
    owner := ownerName ctx (owner? n) }

/-- The constants that a field declares: static, final, and written like constants. -/
def constants (ctx : Context) (n : Node) : List Symbol :=
  if hasModifier ctx n.tree "static" && hasModifier ctx n.tree "final" then
    let names := (n.tree.fields "declarator").filterMap (Tree.field? "name")
    (names.filter fun name => Text.isUpperConstant (ctx.text name)).map fun name =>
      { symbol ctx n name .constant n.tree with
        visibility := visibility ctx n
        owner := ownerName ctx (owner? n) }
  else []

/-- The declarations of one node. -/
def declarations (ctx : Context) (n : Node) : Except Fault (List Symbol) :=
  match typeKinds.lookup n.kind with
  | some kind =>
    match n.tree.nameNode? with
    | none => .ok []
    | some name => do return [← typeSymbol ctx n kind name]
  | none =>
    if ["method_declaration", "constructor_declaration", "function_declaration"].contains n.kind
    then .ok (n.tree.nameNode?.map (callable ctx n)).toList
    else if n.kind == "field_declaration" then .ok (constants ctx n)
    else .ok []

end Concordance.Extract.Jvm
