/-!
# Scopes

Which files of a project are indexed, as the settings and the stored index record it.
-/

namespace Concordance

/-- The name of a project and the files to index: those that some `included` pattern and no
`excluded` one matches, in the given languages; without languages, in any. -/
structure Scope where
  name : String := ""
  included : List String := ["**/*"]
  excluded : List String := []
  languages : List String := []
  deriving DecidableEq, Inhabited

end Concordance
