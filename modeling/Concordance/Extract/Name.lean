import Concordance.Chars.Basic
import Concordance.Chars.Letter
import Concordance.Tree.Basic

/-!
# Names in syntax trees

Which part of a declaration is its name, and to which plain name an expression comes down: `a.b.c`
to `c`, `Foo<T>` to `Foo`, and a call on the result of a call to none.
-/

namespace Concordance

namespace Tree

/-- Kinds of trees that are plain names. -/
def identifierKinds : List String :=
  ["identifier", "type_identifier", "property_identifier", "private_property_identifier",
   "shorthand_property_identifier", "field_identifier", "simple_identifier", "constant", "name",
   "package_identifier", "namespace_identifier"]

/-- Kinds of trees whose last part is what they name. -/
def qualifiedKinds : List String :=
  ["member_expression", "scoped_identifier", "scoped_type_identifier", "qualified_name",
   "qualified_identifier", "selector_expression", "field_expression", "attribute",
   "navigation_expression", "member_access_expression", "scope_resolution", "nested_identifier",
   "scoped_call_expression", "qualified_type", "nested_type_identifier", "pointer_declarator",
   "reference_declarator", "function_declarator", "parenthesized_declarator", "array_declarator",
   "init_declarator"]

/-- Kinds of trees whose first part is what they name. -/
def genericKinds : List String :=
  ["generic_type", "generic_name", "parameterized_type", "user_type", "template_type"]

/-- Whether a tree is a plain name. -/
def isIdentifier (t : Tree) : Bool :=
  identifierKinds.contains t.kind

/-- Whether a tree is a comment of some kind. -/
def isComment (t : Tree) : Bool :=
  Text.contains "comment" t.kind

/-- The name of a declaration: the field for it, or else the first plain name. -/
def nameNode? (t : Tree) : Option Tree :=
  t.field? "name" <|> t.childOf? identifierKinds

/-- The named children that may say what the tree names. -/
def nameParts (t : Tree) : List Tree :=
  t.namedChildren.filter fun c => !(["comment", "type_arguments"].contains c.kind)

/-- The child on which the name of a tree depends. -/
def nameCarrier? (t : Tree) : Option Tree :=
  match t.nameParts with
  | [] => none
  | first :: rest =>
    if genericKinds.contains t.kind then some first
    else if qualifiedKinds.contains t.kind then
      t.field? "name" <|> t.field? "property" <|> t.field? "declarator" <|>
        (first :: rest).getLast?
    else none

/-- What carries the name of a node is one of its children. -/
theorem mem_of_nameCarrier? {t c : Tree} (h : t.nameCarrier? = some c) : c ∈ t.children := by
  have part {d : Tree} (hd : d ∈ t.nameParts) : d ∈ t.children :=
    mem_of_mem_namedChildren (List.mem_filter.1 hd).1
  unfold nameCarrier? at h
  split at h
  · cases h
  · next first rest hparts =>
    split at h
    · cases h
      exact part (by simp [hparts])
    · split at h
      · simp only [Option.orElse_eq_orElse, Option.orElse_eq_or, Option.or_eq_some_iff] at h
        rcases h with h | ⟨-, h | ⟨-, h | ⟨-, h⟩⟩⟩
        · exact mem_of_field? h
        · exact mem_of_field? h
        · exact mem_of_field? h
        · exact part (hparts ▸ List.mem_of_getLast? h)
      · cases h

/-- The plain name that a callee, a type or a declarator comes down to. -/
def target? (t : Tree) : Option Tree :=
  if t.isIdentifier then some t
  else match h : t.nameCarrier? with
    | none => none
    | some c =>
      have : c.size < t.size := size_lt_of_mem (mem_of_nameCarrier? h)
      target? c
termination_by t.size

/-- The declarator of a function inside pointers, references and brackets. -/
def functionDeclarator? (t : Tree) : Option Tree :=
  if t.kind == "function_declarator" then some t
  else match h : t.field? "declarator" with
    | none => none
    | some c =>
      have : c.size < t.size := size_lt_of_mem (mem_of_field? h)
      functionDeclarator? c
termination_by t.size

mutual

/-- The first tree of a kind, the tree itself before those below its named children. -/
def firstOfKind? (kind : String) : Tree → Option Tree
  | .node i cs => if i.kind == kind then some (.node i cs) else firstAmong? kind cs

/-- The first tree of a kind in the named trees of a list. -/
def firstAmong? (kind : String) : List Tree → Option Tree
  | [] => none
  | t :: ts =>
    if t.info.named then firstOfKind? kind t <|> firstAmong? kind ts else firstAmong? kind ts

end

end Tree

namespace Text

/-- Whether a name is written like a constant: an ASCII capital, then capitals, digits and
underscores, two characters at least. One newline at the end is let pass. -/
def isUpperConstant (s : String) : Bool :=
  match s.toList with
  | [] => false
  | c :: rest =>
    let tail := if rest.getLast? == some '\n' then rest.dropLast else rest
    Chars.isAsciiUpper c && !rest.isEmpty &&
      tail.all fun d => Chars.isAsciiUpper d || Chars.isAsciiDigit d || d == '_'

/-- Whether a name is written like a hook: `use`, then a capital. -/
def isHookName (s : String) : Bool :=
  match s.toList with
  | 'u' :: 's' :: 'e' :: c :: _ => Chars.isUpper c
  | _ => false

/-- Whether a text begins with a capital. -/
def startsUpper (s : String) : Bool :=
  match s.toList with
  | [] => false
  | c :: _ => Chars.isUpper c

end Text

end Concordance
