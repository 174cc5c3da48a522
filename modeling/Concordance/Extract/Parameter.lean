import Concordance.Extract.Context
import Concordance.Extract.Name

/-!
# Parameters

The parameters of a callable declaration, as well as a tree of any grammar tells them.
-/

namespace Concordance

namespace Text

/-- The text of a type without the sign that announces it; nothing if no text is left. -/
def typeAnnotation (s : String) : Option String :=
  let cs := Chars.strip s.toList
  let cs := if [':'].isPrefixOf cs then Chars.strip (cs.drop 1) else cs
  let cs := if ['-', '>'].isPrefixOf cs then Chars.strip (cs.drop 2) else cs
  nonEmpty (.ofList cs)

end Text

namespace Extract

/-- Kinds of parameters that take all remaining arguments. -/
def restKinds : List String :=
  ["rest_pattern", "list_splat_pattern", "dictionary_splat_pattern", "variadic_parameter",
   "variadic_parameter_declaration", "spread_parameter", "splat_parameter", "hash_splat_parameter"]

/-- Kinds of children of a parameter list that are no parameters. -/
def silentKinds : List String :=
  ["self_parameter", "keyword_separator", "positional_separator"]

/-- Whether a parameter takes all remaining arguments. -/
def takesRest (ctx : Context) (t : Tree) : Bool :=
  let written := Chars.stripStart (ctx.text t).toList
  restKinds.contains t.kind || ['.', '.', '.'].isPrefixOf written || ['*'].isPrefixOf written

/-- The part of a parameter that is its name. -/
def parameterName? (t : Tree) : Option Tree :=
  t.field? "name" <|> t.field? "pattern" <|> t.field? "left" <|>
    t.childOf? ["identifier", "simple_identifier", "variable_name"] <|>
    (t.childOf? ["variable_declarator"]).bind (Tree.field? "name")

/-- The default value of a parameter. -/
def parameterValue? (t : Tree) : Option Tree :=
  t.field? "value" <|> t.field? "default_value" <|> t.field? "right"

/-- The plain name in the text of a parameter. -/
def plainName (family : Family) (s : String) : String :=
  let cs := Chars.strip (s.toList.dropWhile fun c => ['.', '*', '&', '$'].contains c)
  .ofList (if family = .php then cs.dropWhile (· == '$') else cs)

/-- Reads one child of a parameter list. -/
def parameter? (ctx : Context) (t : Tree) : Option Parameter :=
  if silentKinds.contains t.kind then none
  else if t.isIdentifier then some { name := ctx.text t }
  else
    let name? := parameterName? t
    let declarator? := t.field? "declarator"
    if name?.isNone && declarator?.isNone && ctx.family = .c &&
        Text.strip (ctx.text t) == "void" then none
    else
      let named := (name? <|> declarator?.bind Tree.target?).getD t
      let value? := parameterValue? t
      some
        { name := plainName ctx.family (ctx.text named)
          type := (t.field? "type").bind fun u => Text.typeAnnotation (ctx.text u)
          defaultValue := value?.map ctx.text
          rest := takesRest ctx t
          optional := t.kind == "optional_parameter" || value?.isSome }

/-- Reads a parameter list; a single plain name is a list of its own. -/
def parameters (ctx : Context) : Option Tree → List Parameter
  | none => []
  | some t =>
    if t.isIdentifier then [{ name := ctx.text t }]
    else (t.namedChildren.filter fun c => !c.isComment).filterMap (parameter? ctx)

end Extract

end Concordance
