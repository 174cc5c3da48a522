import Concordance.Graph.Directed

/-!
# Graphs as JSON

The form in which graphs are answered.
-/

namespace Concordance

/-- A node of a call graph as JSON. -/
def CallNode.toJson (n : CallNode) : Json :=
  .object [("id", .text n.id), ("name", .text n.name), ("kind", .text n.kind.name),
    ("file", .text n.file), ("line", .integer n.line)]

/-- The place of a call as JSON. -/
def CallSite.toJson (s : CallSite) : Json :=
  .object [("file", .text s.file), ("line", .integer s.line), ("column", .integer s.column)]

/-- An edge of a call graph as JSON. -/
def CallEdge.toJson (e : CallEdge) : Json :=
  .object [("from", .text e.caller), ("to", .text e.callee), ("count", .nat e.count),
    ("locations", .array (e.sites.map CallSite.toJson))]

/-- A call graph as JSON. -/
def CallGraph.toJson (g : CallGraph) : Json :=
  .object [("nodes", .array (g.nodes.values.map CallNode.toJson)),
    ("edges", .array (g.edges.map CallEdge.toJson))]

/-- A node of a dependency graph as JSON. -/
def DependencyNode.toJson (n : DependencyNode) : Json :=
  .object [("id", .text n.id), ("file", if n.isExternal then .null else .text n.id),
    ("is_external", .bool n.isExternal)]

/-- An edge of a dependency graph as JSON. -/
def DependencyEdge.toJson (e : DependencyEdge) : Json :=
  .object [("from", .text e.source), ("to", .text e.target), ("imports", .texts e.names)]

/-- A dependency graph as JSON. -/
def DependencyGraph.toJson (g : DependencyGraph) : Json :=
  .object [("nodes", .array (g.nodes.values.map DependencyNode.toJson)),
    ("edges", .array (g.edges.map DependencyEdge.toJson))]

/-- A directed graph as JSON. -/
def Digraph.toJson (g : Digraph) : Json :=
  .object [
    ("nodes", .array (g.nodes.entries.map fun n => .array [.text n.1, .object n.2])),
    ("edges", .array (g.edgesBySource.map fun e =>
      .array [.text e.1.1, .text e.1.2, .object e.2]))]

end Concordance
