import Concordance.Extract.Declaration.Basic

/-!
# Declarations of Python

Functions, methods and classes, with the decorators above them and the text that documents them,
and the constants of a module.
-/

namespace Concordance.Extract.Python

/-- The quotes of a documenting text, longest first. -/
def quotes : List (List Char) :=
  [['"', '"', '"'], ['\'', '\'', '\''], ['"'], ['\'']]

/-- The text between quotes; the letters that say how to read it stand before the first. -/
def unquote (written : List Char) : Option String :=
  let cs := written.dropWhile fun c => "rbuRBUfF".toList.contains c
  match quotes.find? fun q =>
      q.isPrefixOf cs && q.isSuffixOf cs && 2 * q.length ≤ cs.length with
  | none => none
  | some q =>
    Text.nonEmpty (.ofList (Chars.strip ((cs.drop q.length).take (cs.length - 2 * q.length))))

/-- The text that a definition begins its body with, as its documentation. -/
def docText (ctx : Context) (t : Tree) : Option String := do
  let body ← t.field? "body"
  let first ← body.namedChildren.head?
  if first.kind != "expression_statement" then none
  else
    let string ← first.namedChildren.head?
    if string.kind != "string" then none else unquote (ctx.text string).toList

/-- The name of a decorator: of what is called, if it is a call. -/
def decoratorName? (ctx : Context) (decorator : Tree) : Option String := do
  let expression ← decorator.namedChildren.head?
  let named ← if expression.kind == "call" then expression.field? "function" else some expression
  return ctx.text (← named.target?)

/-- The names of the decorators above a definition. -/
def decorators (ctx : Context) (parent : Node) : List String :=
  if parent.kind == "decorated_definition" then
    (parent.tree.childrenOf ["decorator"]).filterMap (decoratorName? ctx)
  else []

/-- The class of which a definition is a member. -/
def owner? (n : Node) : Option Tree :=
  n.ownerOf? ["class_definition"] ["block", "decorated_definition"]

/-- The tree that a definition spans: with its decorators, if it has any. -/
def wholeOf (n parent : Node) : Tree :=
  if parent.kind == "decorated_definition" then parent.tree else n.tree

/-- The kind of a function. -/
def functionKind (name : String) (isMember : Bool) (decorators : List String) : SymbolKind :=
  if !isMember then .function
  else if decorators.contains "property" then .property
  else if name == "__init__" then .constructor
  else .method

/-- The parameters without the instance or class that a method is called on. -/
def dropReceiver (isMember : Bool) : List Parameter → List Parameter
  | [] => []
  | p :: rest => if isMember && (p.name == "self" || p.name == "cls") then rest else p :: rest

/-- The symbol of a function. -/
def functionSymbol (ctx : Context) (n parent : Node) (name : Tree) : Symbol :=
  let owner := owner? n
  let marks := decorators ctx parent
  let params := parameters ctx (n.tree.field? "parameters")
  let kind := functionKind (ctx.text name) owner.isSome marks
  { symbol ctx n name kind (wholeOf n parent) with
    documentation := docText ctx n.tree
    isAsync := n.tree.hasToken "async"
    isStatic := marks.contains "staticmethod" || marks.contains "classmethod"
    parameters := dropReceiver owner.isSome params
    returnType := returnType ctx n.tree ["return_type"]
    owner := ownerName ctx owner }

/-- What a class builds on: the plain and dotted names of its argument list. -/
def bases (t : Tree) : List Tree :=
  match t.field? "superclasses" with
  | none => []
  | some list => list.namedChildren.filter fun c => ["identifier", "attribute"].contains c.kind

/-- The symbol of a class. -/
def classSymbol (ctx : Context) (n parent : Node) (name : Tree) : Symbol :=
  let h := Heritage.ofNames (typeNames ctx (bases n.tree))
  { symbol ctx n name .classType (wholeOf n parent) with
    documentation := docText ctx n.tree
    base := h.base
    interfaces := h.interfaces
    owner := ownerName ctx (owner? n) }

/-- The constant that an assignment in a module declares. -/
def constant (ctx : Context) (n : Node) : List Symbol :=
  match n.tree.field? "left", n.parent? with
  | some left, some statement =>
    if left.kind == "identifier" && Text.isUpperConstant (ctx.text left) &&
        statement.kind == "expression_statement" && statement.parentKind? == some "module" then
      [{ symbol ctx statement left .constant statement.tree with
         returnType := (n.tree.field? "type").map ctx.text }]
    else []
  | _, _ => []

/-- The declarations of one node. -/
def declarations (ctx : Context) (n : Node) : Except Fault (List Symbol) :=
  if n.kind == "function_definition" || n.kind == "class_definition" then
    match n.tree.field? "name" with
    | none => .ok []
    | some name =>
      match n.parent? with
      | none => .error .detached
      | some parent =>
        if n.kind == "function_definition" then .ok [functionSymbol ctx n parent name]
        else .ok [classSymbol ctx n parent name]
  else if n.kind == "assignment" then .ok (constant ctx n)
  else .ok []

end Concordance.Extract.Python
