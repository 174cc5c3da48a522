import Concordance.Extract.Declaration.Basic

/-!
# Declarations of C#

Types and namespaces, members, and constants.
-/

namespace Concordance.Extract.CSharp

/-- The kinds of declarations that have members, with the kinds of their symbols. -/
def typeKinds : List (String × SymbolKind) :=
  [("class_declaration", .classType), ("struct_declaration", .classType),
   ("record_declaration", .classType), ("record_struct_declaration", .classType),
   ("interface_declaration", .interface), ("enum_declaration", .enumeration),
   ("delegate_declaration", .type), ("namespace_declaration", .namespaceUnit),
   ("file_scoped_namespace_declaration", .namespaceUnit)]

/-- The kinds of members, with the kinds of their symbols. -/
def memberKinds : List (String × SymbolKind) :=
  [("method_declaration", .method), ("constructor_declaration", .constructor),
   ("property_declaration", .property), ("event_declaration", .event)]

/-- The name of the type of which a declaration is a member. -/
def owner (ctx : Context) (n : Node) : Option String :=
  ownerName ctx (n.ownerOf? (typeKinds.map Prod.fst) ["declaration_list"])

/-- Whether a name is written like an interface: an `I`, then a capital. -/
def isInterfaceName (s : String) : Bool :=
  match s.toList with
  | 'I' :: c :: _ => Chars.isUpper c
  | _ => false

/-- What a type builds on, told apart by how the names are written. -/
def heritage (ctx : Context) (t : Tree) : Heritage :=
  match t.childOf? ["base_list"] with
  | none => {}
  | some list =>
    let names := typeNames ctx list.namedChildren
    ⟨names.find? fun s => !isInterfaceName s, names.filter isInterfaceName⟩

/-- The symbol of a type or namespace. -/
def typeSymbol (ctx : Context) (n : Node) (kind : SymbolKind) (name : Tree) : Symbol :=
  let h := heritage ctx n.tree
  { symbol ctx n name kind n.tree with
    documentation := leadingComment ctx n
    isStatic := hasModifier ctx n.tree "static"
    visibility := visibility ctx n
    base := h.base
    interfaces := h.interfaces
    owner := owner ctx n }

/-- The symbol of a member. -/
def member (ctx : Context) (n : Node) (kind : SymbolKind) (name : Tree) : Symbol :=
  { symbol ctx n name kind n.tree with
    documentation := leadingComment ctx n
    isAsync := hasModifier ctx n.tree "async"
    isStatic := hasModifier ctx n.tree "static"
    visibility := visibility ctx n
    parameters := parameters ctx (n.tree.field? "parameters")
    returnType := returnType ctx n.tree ["returns", "type"]
    owner := owner ctx n }

/-- The constants that a field declares. -/
def constants (ctx : Context) (n : Node) : List Symbol :=
  if !hasModifier ctx n.tree "const" then []
  else match n.tree.childOf? ["variable_declaration"] with
    | none => []
    | some declaration =>
      let names := (declaration.childrenOf ["variable_declarator"]).filterMap Tree.nameNode?
      names.map fun name =>
        { symbol ctx n name .constant n.tree with
          visibility := visibility ctx n
          owner := owner ctx n }

/-- The declarations of one node. -/
def declarations (ctx : Context) (n : Node) : List Symbol :=
  match typeKinds.lookup n.kind, memberKinds.lookup n.kind with
  | some kind, _ => ((n.tree.field? "name").map (typeSymbol ctx n kind)).toList
  | none, some kind => ((n.tree.field? "name").map (member ctx n kind)).toList
  | none, none => if n.kind == "field_declaration" then constants ctx n else []

end Concordance.Extract.CSharp
