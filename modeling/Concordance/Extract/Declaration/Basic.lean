import Concordance.Extract.Comment
import Concordance.Extract.Parameter
import Concordance.Extract.Visibility

/-!
# Declarations

What the readers of declarations have in common: the symbol of a declaration with its spans and its
signature, the names of the types it builds on, and the name of the type it is a member of.
-/

namespace Concordance.Extract

/-- How long a signature may be. -/
def signatureLimit : Nat := 100

/-- The first line of a declaration, shortened to the limit. -/
def signature (ctx : Context) (t : Tree) : String :=
  let line := Chars.strip (Chars.firstLine (ctx.text t).toList)
  .ofList
    (if signatureLimit < line.length then line.take (signatureLimit - 3) ++ ['.', '.', '.']
     else line)

/-- The symbol that the declaration `n` gives to a name; `whole` is the tree it spans. -/
def symbol (ctx : Context) (n : Node) (name : Tree) (kind : SymbolKind) (whole : Tree) : Symbol :=
  let s := ctx.text name
  { name := s
    kind
    span := ctx.span whole
    nameSpan := ctx.span name
    file := ctx.file
    language := ctx.language
    signature := some (signature ctx whole)
    exported := isExported ctx n s }

/-- The names of types, comments left out; a type that comes down to no plain name is taken
literally. -/
def typeNames (ctx : Context) (ts : List Tree) : List String :=
  (ts.filter fun t => !t.isComment).map fun t => ctx.text (t.target?.getD t)

/-- The name of the type that one tree should give. -/
def typeName (ctx : Context) (t : Tree) : Except Fault String :=
  match typeNames ctx [t] with
  | [] => .error .noBaseName
  | name :: _ => .ok name

/-- The name of the first of some types, if there are any. -/
def firstTypeName (ctx : Context) : List Tree → Except Fault (Option String)
  | [] => .ok none
  | t :: _ => (typeName ctx t).map some

/-- The types that a declaration builds on. -/
structure Heritage where
  base : Option String := none
  interfaces : List String := []

/-- The first name is the base, the others are interfaces. -/
def Heritage.ofNames : List String → Heritage
  | [] => {}
  | name :: rest => ⟨some name, rest⟩

/-- The type written in the first of the fields that a declaration has. -/
def returnType (ctx : Context) (t : Tree) (fields : List String) : Option String :=
  (fields.findSome? t.field?).bind fun u => Text.typeAnnotation (ctx.text u)

/-- The name of the type that a member belongs to; an implementation is named by its type. -/
def ownerName (ctx : Context) : Option Tree → Option String
  | none => none
  | some owner =>
    if owner.kind == "impl_item" then
      let type? := owner.field? "type"
      some (ctx.text? (type?.bind Tree.target? <|> type?))
    else owner.nameNode?.map ctx.text

end Concordance.Extract
