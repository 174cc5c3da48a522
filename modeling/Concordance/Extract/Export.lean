import Concordance.Extract.Context
import Concordance.Extract.Name

/-!
# Exports of a source

Explicit export statements: those of ECMAScript, and the list `__all__` of a Python module.
-/

namespace Concordance.Extract

/-- The export that a tree makes. -/
def exportAt (ctx : Context) (t : Tree) (name : String) (kind : ExportKind)
    (source : Option String) : Export :=
  { name, file := ctx.file, span := ctx.span t, kind, source }

/-- The text of a tree without the quotes around it. -/
def withoutQuotes (ctx : Context) (quotes : List Char) (t : Tree) : String :=
  .ofList (Chars.dropBoth (fun c => quotes.contains c) (ctx.text t).toList)

namespace Ecmascript

/-- The names that an exported declaration declares. -/
def declaredNames (ctx : Context) (declaration : Tree) : List String :=
  if ["lexical_declaration", "variable_declaration"].contains declaration.kind then
    ((declaration.childrenOf ["variable_declarator"]).filterMap (Tree.field? "name")).map ctx.text
  else ((declaration.field? "name").map ctx.text).toList

/-- The exported names of a clause, each with its tree. -/
def clauseNames (ctx : Context) (clause : Tree) : List (Tree × String) :=
  (clause.childrenOf ["export_specifier"]).map fun spec =>
    (spec, ctx.text? (spec.field? "alias" <|> spec.field? "name"))

/-- What an export statement hands on from another module. -/
def handedOn (ctx : Context) (t : Tree) (clause : Option Tree) (source : String) : List Export :=
  match clause with
  | none =>
    let newName := (t.childOf? ["namespace_export"]).bind (Tree.childOf? ["identifier"])
    [exportAt ctx t ((newName.map ctx.text).getD "*") .handedOn (some source)]
  | some c =>
    (clauseNames ctx c).map fun (spec, name) => exportAt ctx spec name .handedOn (some source)

/-- The name under which a default value is known. -/
def defaultName (ctx : Context) : Option Tree → String
  | none => "default"
  | some value =>
    if ["function_expression", "function", "class"].contains value.kind then
      ((value.field? "name").map ctx.text).getD "default"
    else if value.kind == "identifier" then ctx.text value
    else "default"

/-- What an export statement exports of its own module. -/
def ownExports (ctx : Context) (t : Tree) (clause : Option Tree) : List Export :=
  let isDefault := t.hasToken "default"
  match t.field? "declaration", clause with
  | some declaration, _ =>
    let declared := declaredNames ctx declaration
    let names := if declared.isEmpty && isDefault then ["default"] else declared
    names.map fun name => exportAt ctx t name (if isDefault then .default else .named) none
  | none, some c =>
    (clauseNames ctx c).map fun (spec, name) =>
      exportAt ctx spec name (if name == "default" then .default else .named) none
  | none, none =>
    if isDefault then [exportAt ctx t (defaultName ctx (t.field? "value")) .default none] else []

/-- The exports of one node. -/
def exports (ctx : Context) (t : Tree) : List Export :=
  if t.kind != "export_statement" then []
  else
    let clause := t.childOf? ["export_clause"]
    match t.field? "source" with
    | some source => handedOn ctx t clause (withoutQuotes ctx ['"', '\'', '`'] source)
    | none => ownExports ctx t clause

end Ecmascript

namespace Python

/-- The exports of one node. -/
def exports (ctx : Context) (n : Node) : List Export :=
  match n.tree.field? "left", n.tree.field? "right", n.parent? with
  | some left, some right, some statement =>
    if n.kind == "assignment" && ctx.text left == "__all__" &&
        statement.parentKind? == some "module" && ["list", "tuple"].contains right.kind then
      (right.namedChildren.filter fun item => item.kind == "string").map fun item =>
        exportAt ctx item (withoutQuotes ctx ['"', '\''] item) .named none
    else []
  | _, _, _ => []

end Python

/-- The exports of one node. -/
def exports (ctx : Context) (n : Node) : List Export :=
  match ctx.family with
  | .ecmascript => Ecmascript.exports ctx n.tree
  | .python => Python.exports ctx n
  | _ => []

end Concordance.Extract
