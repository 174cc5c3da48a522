import Concordance.Glob
import Concordance.Path

/-!
# Ignore rules

The ignore file of a project lists patterns, one on a line; blank lines and lines that begin with
`#` are none. The last pattern that matches a path decides, and a pattern after `!` takes the path
back in.

A pattern that begins with a slash is matched from the root of the project, and also matches all
below it. Any other pattern may match the whole path, the path from some folder on, or a single part
of it.
-/

namespace Concordance

/-- The patterns of an ignore file. -/
structure IgnoreRules where
  patterns : List String
  deriving DecidableEq, Inhabited

namespace IgnoreRules

/-- The rules that the text of an ignore file gives. -/
def ofText (text : List Char) : IgnoreRules :=
  let lines := (Chars.lines text).map Chars.strip
  ⟨(lines.filter fun l => !l.isEmpty && l.head? != some '#').map String.ofList⟩

/-- One rule: whether it takes a path back in, and its pattern without slashes at the end. -/
structure Rule where
  negated : Bool
  pattern : List Char

/-- The rule of a line. -/
def ruleOf (line : String) : Rule :=
  let cs := line.toList
  let negated := cs.head? == some '!'
  ⟨negated, Chars.dropEnd (· == '/') (if negated then cs.drop 1 else cs)⟩

/-- Whether a rule matches a path. -/
def Rule.matches (r : Rule) (path : Path) : Bool :=
  let text := path.toText.toList
  match r.pattern with
  | [] => false
  | '/' :: pattern => Glob.matchChars pattern text || (pattern ++ ['/']).isPrefixOf text
  | pattern =>
    Glob.acceptsChars pattern text ||
      Glob.acceptsChars ('*' :: '*' :: '/' :: pattern) text ||
      path.allParts.any fun part => Glob.matchChars pattern part.toList

/-- What is decided about a path after one more rule. -/
def decide (path : Path) (ignored : Bool) (line : String) : Bool :=
  let r := ruleOf line
  if r.matches path then !r.negated else ignored

/-- Whether the rules ignore a path. -/
def ignores (rules : IgnoreRules) (path : Path) : Bool :=
  rules.patterns.foldl (decide path) false

end IgnoreRules

end Concordance
