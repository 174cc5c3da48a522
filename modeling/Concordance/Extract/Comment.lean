import Concordance.Extract.Context
import Concordance.Extract.Name

/-!
# Comments above declarations

The documentation of a declaration is the block of comments right above it, without the marks that
make a comment.
-/

namespace Concordance.Extract

/-- The marks with which a line of a comment may begin, in the order in which they are tried. -/
def commentMarks : List String :=
  ["/**", "/*", "*/", "*", "///", "//!", "//", "#"]

/-- A line of a comment without its mark, the blanks before the mark and one blank after it. -/
def dropMark (line : List Char) : List Char :=
  let body := Chars.stripStart line
  match commentMarks.find? fun m => m.toList.isPrefixOf body with
  | none => line
  | some m =>
    match body.drop m.length with
    | [] => []
    | c :: rest => if Chars.isBlank c then rest else c :: rest

/-- A line of a comment as documentation: without mark, end mark and blanks at the end. -/
def cleanLine (line : List Char) : List Char :=
  let cleaned := Chars.stripEnd (dropMark line)
  if ['*', '/'].isSuffixOf cleaned then Chars.stripEnd (cleaned.take (cleaned.length - 2))
  else cleaned

/-- The comments right above a row, nearest first. -/
def commentsAbove (ctx : Context) : Nat → List Tree → List Tree
  | _, [] => []
  | row, t :: rest =>
    if t.isComment && row ≤ ctx.stopRow t + 1 then t :: commentsAbove ctx (ctx.startRow t) rest
    else []

/-- The lines of comments given nearest first, those that are empty left out. -/
def commentLines (ctx : Context) (comments : List Tree) : List (List Char) :=
  (comments.reverse.flatMap fun t => (Chars.lines (ctx.text t).toList).map cleanLine).filter
    fun line => !line.isEmpty

/-- The documentation of a node: the comments right above it. -/
def leadingComment (ctx : Context) (n : Node) : Option String :=
  let comments := commentsAbove ctx (ctx.startRow n.tree) n.earlier
  Text.nonEmpty (.ofList (['\n'].intercalate (commentLines ctx comments)))

end Concordance.Extract
