import Concordance.Extract.Declaration.Basic

/-!
# Declarations of Ruby

Methods, classes, modules and constants. A method in the singleton class of a type, or defined on a
single object, is static.
-/

namespace Concordance.Extract.Ruby

/-- The way up without a body at its start. -/
def dropBody : List Ancestor → List Ancestor
  | [] => []
  | a :: rest => if a.kind == "body_statement" then rest else a :: rest

/-- The way up past a body and a singleton class, and whether there was such a class. -/
def enclosing (n : Node) : List Ancestor × Bool :=
  match dropBody n.above with
  | [] => ([], false)
  | a :: rest => if a.kind == "singleton_class" then (dropBody rest, true) else (a :: rest, false)

/-- The class or module of which a declaration is a member. -/
def owner? (n : Node) : Option Tree :=
  match (enclosing n).1 with
  | [] => none
  | a :: _ => if ["class", "module"].contains a.kind then some a.tree else none

/-- The kind of the symbol of a method. -/
def methodKind (n : Node) (name : String) : SymbolKind :=
  if (owner? n).isNone && n.kind == "method" then .function
  else if name == "initialize" then .constructor
  else .method

/-- The symbol of a method. -/
def method (ctx : Context) (n : Node) (name : Tree) : Symbol :=
  { symbol ctx n name (methodKind n (ctx.text name)) n.tree with
    documentation := leadingComment ctx n
    isStatic := (enclosing n).2 || n.kind == "singleton_method"
    visibility := visibility ctx n
    parameters := parameters ctx (n.tree.field? "parameters")
    owner := ownerName ctx (owner? n) }

/-- The symbol of a class or module. -/
def typeSymbol (ctx : Context) (n : Node) (name : Tree) : Except Fault Symbol := do
  let base ← firstTypeName ctx ((n.tree.field? "superclass").map Tree.namedChildren |>.getD [])
  return { symbol ctx n name (if n.kind == "class" then .classType else .moduleUnit) n.tree with
    documentation := leadingComment ctx n
    base
    owner := ownerName ctx (owner? n) }

/-- The constant that an assignment in a type or at top level declares. -/
def constant (ctx : Context) (n : Node) : List Symbol :=
  match n.tree.field? "left" with
  | none => []
  | some left =>
    if left.kind == "constant" && ((owner? n).isSome || n.parentKind? == some "program") then
      [{ symbol ctx n left .constant n.tree with owner := ownerName ctx (owner? n) }]
    else []

/-- The declarations of one node. -/
def declarations (ctx : Context) (n : Node) : Except Fault (List Symbol) :=
  if ["method", "singleton_method"].contains n.kind then
    .ok ((n.tree.field? "name").map (method ctx n)).toList
  else if ["class", "module"].contains n.kind then
    match n.tree.field? "name" with
    | none => .ok []
    | some name => do return [← typeSymbol ctx n name]
  else if n.kind == "assignment" then .ok (constant ctx n)
  else .ok []

end Concordance.Extract.Ruby
