import Concordance.Record.Scope
import Concordance.Record.Statistics

/-!
# Project indexes

The entries of all files of a project in the order in which they came, with the scope they were
taken under and the counts over them.
-/

namespace Concordance

/-- The index of a project. -/
structure ProjectIndex where
  project : String
  version : Int
  indexed : Number := .zero
  scope : Scope := {}
  statistics : Statistics := {}
  files : Roster String FileEntry := .empty
  deriving Inhabited

namespace ProjectIndex

/-- The version of the format in which indexes are stored. -/
def currentVersion : Int := 2

/-- The index of a project of which no file is known. -/
def fresh (project : String) : ProjectIndex :=
  { project, version := currentVersion }

/-- The index with the counts over its entries. -/
def counted (index : ProjectIndex) : ProjectIndex :=
  { index with statistics := .ofEntries index.files.values }

end ProjectIndex

end Concordance
