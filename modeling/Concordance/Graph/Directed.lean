import Concordance.Graph.Call
import Concordance.Graph.Dependency
import Concordance.Json.Basic

/-!
# Directed graphs with attributes

A plain view of the graphs for graph algorithms: nodes by identifier and edges by their two ends, both
with attributes. The view is made in a graph library, of which only the operations are fixed here
(`GraphLibrary`). The graphs that are listed are those of `Digraph.library`.
-/

namespace Concordance

/-- Attributes by name. -/
abbrev Attributes := List (String × Json)

/-- A library of directed graphs: how a graph is made, and what can be asked of it. -/
structure GraphLibrary (G : Type) where
  empty : G
  addNode : G → String → Attributes → G
  addEdge : G → String → String → Attributes → G
  node? : G → String → Option Attributes
  edge? : G → String → String → Option Attributes

/-- Sets some attributes; one that is there keeps its place. -/
def Attributes.update (old new : Attributes) : Attributes :=
  new.foldl
    (fun a e => if a.any (·.1 == e.1) then a.map fun o => if o.1 == e.1 then e else o else a ++ [e])
    old

/-- A directed graph in the order in which it was made. -/
structure Digraph where
  nodes : Roster String Attributes := .empty
  edges : Roster (String × String) Attributes := .empty
  deriving Inhabited

namespace Digraph

/-- The attributes of something that is added: those given, which also replace the ones that it had. -/
def given (a : Attributes) (old : Option Attributes) : Attributes :=
  (old.map (Attributes.update · a)).getD a

/-- Adds a node, or sets attributes of it. -/
def addNode (g : Digraph) (id : String) (a : Attributes) : Digraph :=
  { g with nodes := g.nodes.alter id (given a) }

/-- Adds an edge, or sets attributes of it. Ends that are not yet nodes become nodes without
attributes. -/
def addEdge (g : Digraph) (source target : String) (a : Attributes) : Digraph :=
  { nodes := (g.nodes.putNew source []).putNew target []
    edges := g.edges.alter (source, target) (given a) }

/-- The edges, those of one source together, in the order of the nodes. -/
def edgesBySource (g : Digraph) : List ((String × String) × Attributes) :=
  g.nodes.keys.flatMap fun id => g.edges.entries.filter fun e => e.1.1 == id

/-- The library of these graphs. -/
def library : GraphLibrary Digraph where
  empty := {}
  addNode := addNode
  addEdge := addEdge
  node? g id := g.nodes.get? id
  edge? g source target := g.edges.get? (source, target)

end Digraph

variable {G : Type} (lib : GraphLibrary G)

/-- The attributes of a node of a call graph. -/
def CallNode.attributes (n : CallNode) : Attributes :=
  [("name", .text n.name), ("kind", .text n.kind.name), ("file", .text n.file),
   ("line", .integer n.line)]

/-- The identifiers of the nodes that a called name means; a name that no node has means itself. -/
def CallGraph.targetsOf (g : CallGraph) (callee : String) : List String :=
  match (g.nodes.values.filter fun n => n.name == callee).map CallNode.id with
  | [] => [callee]
  | ids => ids

/-- A call graph as a directed graph: an edge leads to every node of the called name. -/
def CallGraph.toDigraph (g : CallGraph) : G :=
  let nodes := g.nodes.values.foldl (fun d n => lib.addNode d n.id n.attributes) lib.empty
  g.edges.foldl
    (fun d e => (g.targetsOf e.callee).foldl
      (fun d target => lib.addEdge d e.caller target [("count", .nat e.count)]) d)
    nodes

/-- A dependency graph as a directed graph. -/
def DependencyGraph.toDigraph (g : DependencyGraph) : G :=
  let nodes := g.nodes.values.foldl
    (fun d n => lib.addNode d n.id [("is_external", .bool n.isExternal)]) lib.empty
  g.edges.foldl (fun d e => lib.addEdge d e.source e.target [("imports", .texts e.names)]) nodes

end Concordance
