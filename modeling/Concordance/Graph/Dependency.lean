import Concordance.Graph.Resolve
import Concordance.Record.FileEntry
import Concordance.Roster

/-!
# Dependency graphs

The nodes of a dependency graph are some files and the modules outside them that they import. An
edge collects the names that one file imports from one target.
-/

namespace Concordance

/-- A file, or a module outside the files. -/
structure DependencyNode where
  id : String
  isExternal : Bool
  deriving DecidableEq, Inhabited

/-- What one file imports from one target. -/
structure DependencyEdge where
  source : String
  target : String
  names : List String
  deriving DecidableEq, Inhabited

/-- A dependency graph. -/
structure DependencyGraph where
  nodes : Roster String DependencyNode
  edges : List DependencyEdge
  deriving Inhabited

namespace DependencyGraph

/-- An import of a file with the file or module it means. -/
structure Dependency where
  source : String
  target : String
  isExternal : Bool
  names : List String
  deriving DecidableEq, Inhabited

/-- What an import of a file means. -/
def dependencyOf (known : List String) (file : String) (i : Import) : Dependency :=
  let names := i.specifiers.map ImportSpecifier.localName
  match Graph.resolve? i.source file known with
  | some target => ⟨file, target, false, names⟩
  | none => ⟨file, i.source, true, names⟩

/-- The imports of some files, in order. -/
def dependenciesOf (files : List FileEntry) : List Dependency :=
  let known := files.map FileEntry.file
  files.flatMap fun f => f.imports.map (dependencyOf known f.file)

/-- The nodes of the files alone. -/
def fileNodes (files : List FileEntry) : Roster String DependencyNode :=
  files.foldl (fun r f => r.put f.file ⟨f.file, false⟩) .empty

/-- Adds the node of a module outside the files. -/
def addNode (nodes : Roster String DependencyNode) (d : Dependency) :
    Roster String DependencyNode :=
  if d.isExternal then nodes.putNew d.target ⟨d.target, true⟩ else nodes

/-- Adds an import to its edge. -/
def addEdge (edges : Roster (String × String) (List String)) (d : Dependency) :
    Roster (String × String) (List String) :=
  edges.alter (d.source, d.target) fun names => names.getD [] ++ d.names

/-- The dependency graph of some files. -/
def ofFiles (files : List FileEntry) : DependencyGraph :=
  let dependencies := dependenciesOf files
  let edges := dependencies.foldl addEdge .empty
  ⟨dependencies.foldl addNode (fileNodes files), edges.entries.map fun e => ⟨e.1.1, e.1.2, e.2⟩⟩

/-- The targets that a file imports from. -/
def targetsOf (g : DependencyGraph) (file : String) : List String :=
  (g.edges.filter fun e => e.source == file).map DependencyEdge.target

end DependencyGraph

end Concordance
