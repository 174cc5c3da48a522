import Concordance.Record.FileEntry
import Concordance.Roster

/-!
# Statistics

Counts over the entries of an index: files, symbols, references, and the symbols of each language
and kind in the order in which they first occur.
-/

namespace Concordance

/-- Counts over an index. -/
structure Statistics where
  files : Int := 0
  symbols : Int := 0
  references : Int := 0
  byLanguage : Roster String Int := .empty
  byKind : Roster String Int := .empty
  deriving Inhabited

namespace Statistics

/-- Counts one more under a key. -/
def tally (counts : Roster String Int) (key : String) : Roster String Int :=
  counts.alter key fun n => n.getD 0 + 1

/-- How often each key occurs, in the order of first occurrence. -/
def tallies (keys : List String) : Roster String Int :=
  keys.foldl tally .empty

/-- The counts over some entries. -/
def ofEntries (entries : List FileEntry) : Statistics where
  files := entries.length
  symbols := (entries.flatMap FileEntry.symbols).length
  references := (entries.flatMap FileEntry.references).length
  byLanguage := tallies (entries.flatMap fun e => e.symbols.map Symbol.language)
  byKind := tallies (entries.flatMap fun e => e.symbols.map fun s => s.kind.name)

end Statistics

end Concordance
