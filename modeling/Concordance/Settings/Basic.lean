import Concordance.Path
import Concordance.Record.Scope

/-!
# Settings

The settings of a project say which files belong to it, how its index is built and where it is kept, and
how it is searched.
-/

namespace Concordance

/-- The folder of a project that keeps its index and its settings, unless the settings name another. -/
def Settings.usualFolder : String := ".polyindex"

/-- How an index is built. -/
structure Indexing where
  workers : Int := 4
  largestFile : Int := 1000000
  respectsIgnoreFile : Bool := true
  folder : String := Settings.usualFolder
  deriving DecidableEq, Inhabited

/-- How symbols are searched unless a search says otherwise. -/
structure Searching where
  limit : Int := 50
  fuzzy : Bool := true
  deriving DecidableEq, Inhabited

/-- The settings of a project. -/
structure Settings where
  scope : Scope := {}
  indexing : Indexing := {}
  searching : Searching := {}
  deriving DecidableEq, Inhabited

namespace Settings

/-- The file that keeps the settings of a project. -/
def file (project : Path) (folder : String) : Path :=
  (project.join (.ofString folder)).join (.ofString "config.toml")

/-- The folders that are never part of a project. -/
def excludedFolders : List String :=
  ["node_modules", ".git", "dist", "build", ".next", ".nuxt", ".output", "coverage", ".cache",
   "__pycache__", ".pytest_cache", "venv", ".venv", "vendor", "target", "bin", "obj", ".idea",
   ".vscode", usualFolder]

end Settings

end Concordance
