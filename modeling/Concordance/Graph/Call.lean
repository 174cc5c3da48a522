import Concordance.Record.FileEntry
import Concordance.Roster

/-!
# Call graphs

The nodes of a call graph are the symbols of some files. An edge leads from a callable to a name it
calls and collects all places of such calls. A call belongs to the innermost callable around it; a
call outside all callables, or of a name that no symbol has, belongs to no edge.
-/

namespace Concordance

/-- A symbol as a node of a call graph. -/
structure CallNode where
  id : String
  name : String
  kind : SymbolKind
  file : String
  line : Int
  deriving DecidableEq, Inhabited

/-- The place of a call. -/
structure CallSite where
  file : String
  line : Int
  column : Int
  deriving DecidableEq, Inhabited

/-- The calls that one callable makes of one name: how many there are, and where. -/
structure CallEdge where
  caller : String
  callee : String
  count : Nat := 0
  sites : List CallSite := []
  deriving DecidableEq, Inhabited

/-- A call graph. -/
structure CallGraph where
  nodes : Roster String CallNode
  edges : List CallEdge
  deriving Inhabited

namespace CallGraph

/-- The node of a symbol. -/
def nodeOf (s : Symbol) : CallNode :=
  { id := s.nodeId, name := s.name, kind := s.kind, file := s.file, line := s.span.start.line }

/-- The nodes of some files; of symbols with one identifier the first is the node. -/
def nodesOf (files : List FileEntry) : Roster String CallNode :=
  (files.flatMap FileEntry.symbols).foldl (fun r s => r.putNew s.nodeId (nodeOf s)) .empty

/-- Whether a span has a point of a line and column, its ends included. -/
def hasPoint (s : Span) (line column : Int) : Bool :=
  s.start.notAfter ⟨line, column, 0⟩ && Position.notAfter ⟨line, column, 0⟩ s.stop

/-- Keeps the callable that spans fewer lines; of two that span equally many, the later one. -/
def narrower (line column : Int) (best : Option Symbol) (s : Symbol) : Option Symbol :=
  if hasPoint s.span line column then
    match best with
    | none => some s
    | some b => if s.span.lines ≤ b.span.lines then some s else some b
  else best

/-- The innermost of some callables around a point. -/
def innermost (callables : List Symbol) (line column : Int) : Option Symbol :=
  callables.foldl (narrower line column) none

/-- A call that belongs to an edge. -/
structure Attributed where
  caller : String
  callee : String
  site : CallSite
  deriving DecidableEq, Inhabited

/-- The edge to which a reference of a file belongs. -/
def attribute? (known : List String) (callables : List Symbol) (r : Reference) :
    Option Attributed :=
  if r.kind = .call && known.contains r.name then
    let start := r.span.start
    (innermost callables start.line start.column).map fun caller =>
      ⟨caller.nodeId, r.name, ⟨r.file, start.line, start.column⟩⟩
  else none

/-- The symbols of a file that make calls. -/
def callablesOf (file : FileEntry) : List Symbol :=
  file.symbols.filter fun s => s.kind.isCallable

/-- The calls of a file that belong to edges. -/
def attributedOf (known : List String) (file : FileEntry) : List Attributed :=
  file.references.filterMap (attribute? known (callablesOf file))

/-- Adds a call to its edge; the first call makes the edge. -/
def addCall (edges : Roster (String × String) CallEdge) (a : Attributed) :
    Roster (String × String) CallEdge :=
  edges.alter (a.caller, a.callee) fun edge =>
    let edge := edge.getD { caller := a.caller, callee := a.callee }
    { edge with count := edge.count + 1, sites := edge.sites ++ [a.site] }

/-- The call graph of some files. -/
def ofFiles (files : List FileEntry) : CallGraph :=
  let nodes := nodesOf files
  let known := nodes.values.map CallNode.name
  let edges := (files.flatMap (attributedOf known)).foldl addCall .empty
  ⟨nodes, edges.values⟩

/-- The nodes that call a name. -/
def callersOf (g : CallGraph) (name : String) : List CallNode :=
  let callers := (g.edges.filter fun e => e.callee == name).map CallEdge.caller
  (callers.foldl
    (fun (seen : Roster String CallNode) id =>
      match g.nodes.get? id with
      | some n => seen.putNew id n
      | none => seen)
    .empty).values

/-- The names that a node calls. -/
def calleesOf (g : CallGraph) (id : String) : List String :=
  (g.edges.filter fun e => e.caller == id).map CallEdge.callee

end CallGraph

end Concordance
