import Concordance.Chars.Case
import Concordance.Language.Basic
import Concordance.Path

/-!
# Languages by file name

The language of a file is told by the suffix of its name, letter case set aside.
-/

namespace Concordance.Language

/-- The language of a file ending, written with or without its dot. -/
def ofExtension (extension : String) : Language :=
  let ext := Text.lower extension
  let dotted := if ext.isEmpty || Text.startsWith "." ext then ext else "." ++ ext
  (known.find? fun l => l.extensions.contains dotted).getD .unknown

/-- The language of a file. -/
def ofPath (path : Path) : Language :=
  ofExtension path.suffix

/-- The endings of all languages, in order. -/
def allExtensions : List String :=
  (known.flatMap extensions).mergeSort fun a b => decide (a ≤ b)

end Concordance.Language
