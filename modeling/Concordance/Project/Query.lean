import Concordance.Graph.Call
import Concordance.Graph.Dependency
import Concordance.Project.Run
import Concordance.Record.Writer
import Concordance.Search.Basic

/-!
# Asking a project

What the index of a project answers: symbols and their uses by name, searches, graphs and counts.
-/

namespace Concordance.Project

/-- The entries of all files. -/
def entries (p : Project) : List FileEntry := p.index.files.values

/-- All symbols. -/
def symbols (p : Project) : List Symbol := p.entries.flatMap FileEntry.symbols

/-- The symbols of a name. -/
def definitions (p : Project) (name : String) : List Symbol :=
  p.symbols.filter fun s => s.name == name

/-- The first symbol of a name. -/
def symbol? (p : Project) (name : String) : Option Symbol :=
  p.symbols.find? fun s => s.name == name

/-- The uses of a name. -/
def references (p : Project) (name : String) : List Reference :=
  (p.entries.flatMap FileEntry.references).filter fun r => r.name == name

/-- The symbols of one file, given by its id or by a path to it. -/
def symbolsIn (p : Project) (d : Disk) (file : String) : List Symbol :=
  let id := if p.index.files.contains file then .ok file else p.idOf d (.ofString file)
  match id with
  | .ok id => ((p.index.files.get? id).map FileEntry.symbols).getD []
  | .error _ => []

/-- The best hits of a query; the settings give the limit and the fuzziness that are missing. -/
def search (p : Project) (engine : PatternEngine) (filter : Search.Filter) (limit : Option Int)
    (fuzzy : Option Bool) (isPattern : Bool) (query : String) :
    Except PatternFault (List Search.Hit) :=
  let mode : Search.Mode :=
    if isPattern then .pattern
    else if fuzzy.getD p.settings.searching.fuzzy then .fuzzy
    else .plain
  Concordance.search engine mode filter (limit.getD p.settings.searching.limit) query p.symbols

/-- The call graph. -/
def callGraph (p : Project) : CallGraph := .ofFiles p.entries

/-- The functions that call a name. -/
def callers (p : Project) (name : String) : List CallNode := p.callGraph.callersOf name

/-- The dependency graph. -/
def dependencyGraph (p : Project) : DependencyGraph := .ofFiles p.entries

/-- The counts over the index as it is. -/
def statistics (p : Project) : Statistics := .ofEntries p.entries

/-- The counts of a run as JSON. -/
def Report.toJson (r : Report) : Json :=
  .object [("indexed", .nat r.indexed), ("skipped", .nat r.skipped), ("removed", .nat r.removed),
    ("errors", .texts r.errors), ("cancelled", .bool r.cancelled)]

/-- The symbols and the uses of a name as JSON. -/
def referencesJson (p : Project) (name : String) : Json :=
  let definitions := p.definitions name
  let references := p.references name
  .object [("symbol", .text name), ("definitions", .array (definitions.map Symbol.toJson)),
    ("references", .array (references.map Reference.toJson)),
    ("total", .nat (definitions.length + references.length))]

end Concordance.Project
