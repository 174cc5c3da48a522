import Concordance.Chars.Word
import Concordance.Extract.Context
import Concordance.Extract.Name

/-!
# Headers of declarations

The header of a declaration is its text before its name. Modifiers are words of the header, or
children of their own where the grammar has such.
-/

namespace Concordance

namespace Node

/-- The statement of a declaration: for a declarator the declaration it is part of, for a decorated
definition the whole. -/
def statement (n : Node) : Node :=
  match n.parent? with
  | none => n
  | some p =>
    if n.kind == "variable_declarator" &&
        ["lexical_declaration", "variable_declaration"].contains p.kind then p
    else if p.kind == "decorated_definition" then p
    else n

/-- Whether an ancestor is an export of what stands in it. -/
def isExporting (kind : String) : Bool :=
  Text.contains "export" kind

/-- The statement of a declaration with the export around it. -/
def outerStatement (n : Node) : Node :=
  let s := n.statement
  match s.parent? with
  | none => s
  | some p => if isExporting p.kind then p else s

/-- Kinds of trees that are whole files. -/
def fileKinds : List String :=
  ["program", "module", "source_file", "translation_unit", "compilation_unit"]

/-- Whether a declaration stands in no other construct than its file and exports. -/
def isTopLevel (n : Node) : Bool :=
  match (n.statement.above.dropWhile fun a => isExporting a.kind).head? with
  | none => true
  | some a => fileKinds.contains a.kind

/-- The nearest ancestor that is none of the bodies, if it is one of the types. -/
def ownerOf? (n : Node) (types bodies : List String) : Option Tree :=
  match (n.above.dropWhile fun a => bodies.contains a.kind).head? with
  | none => none
  | some a => if types.contains a.kind then some a.tree else none

end Node

namespace Extract

/-- The bytes of a tree before one of its children. A child that starts before the tree is counted
from the end of the tree. -/
def bytesBefore (ctx : Context) (t child : Tree) : Bytes :=
  let whole := Source.bytesOf ctx.source t
  if t.start ≤ child.start then whole.take (child.start - t.start)
  else whole.take (whole.length - (t.start - child.start))

/-- The text of a declaration before its name, or else before its body, or else its first line. -/
def headerText (ctx : Context) (t : Tree) : String :=
  match t.field? "name" <|> t.field? "body" with
  | none => Text.firstLine (ctx.text t)
  | some child => Utf8.text (bytesBefore ctx t child)

/-- The texts of some trees with a blank between them. -/
def joinedTexts (ctx : Context) (ts : List Tree) : String :=
  " ".intercalate (ts.map ctx.text)

/-- Kinds of trees that are modifiers in PHP. -/
def phpModifierKinds : List String :=
  ["visibility_modifier", "static_modifier", "abstract_modifier", "final_modifier"]

/-- The text in which the modifiers of a declaration stand. -/
def modifierText (ctx : Context) (t : Tree) : String :=
  match ctx.family with
  | .jvm =>
    match t.childOf? ["modifiers"] with
    | some m => ctx.text m
    | none => headerText ctx t
  | .csharp =>
    match t.childrenOf ["modifier"] with
    | [] => headerText ctx t
    | ms => joinedTexts ctx ms
  | .php =>
    match t.childrenOf phpModifierKinds with
    | [] => headerText ctx t
    | ms => joinedTexts ctx ms
  | _ => headerText ctx t

/-- Whether a declaration has a modifier. -/
def hasModifier (ctx : Context) (t : Tree) (modifier : String) : Bool :=
  Text.hasWord modifier (modifierText ctx t)

end Extract

end Concordance
