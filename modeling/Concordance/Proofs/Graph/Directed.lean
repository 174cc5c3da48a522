import Concordance.Graph.Directed
import Concordance.Proofs.Graph.Counted

/-!
# Call graphs as directed graphs

A graph library is only asked for what any of them does (`GraphLibrary.Lawful`): a node or an edge that
is new gets the attributes given, an edge between nodes that are there changes no node, and all else
stays. So what becomes of something that is added twice is left open, and what becomes of an edge to
something unknown.

A call graph never comes to that, because its edges have known ends and no two of them the same
(`CallGraph.Proper`). Each edge becomes one edge for every node of the called name (`links`), and all
these have different ends. So every library holds just the nodes and the links that were added
(`Proper.node?_toDigraph`, `Proper.edge?_toDigraph`).
-/

namespace Concordance

namespace GraphLibrary

variable {G : Type} {lib : GraphLibrary G}

/-- What is asked of a graph library. -/
structure Lawful (lib : GraphLibrary G) : Prop where
  node?_empty : ∀ id, lib.node? lib.empty id = none
  edge?_empty : ∀ source target, lib.edge? lib.empty source target = none
  node?_addNode : ∀ {d id} a, lib.node? d id = none → ∀ id',
    lib.node? (lib.addNode d id a) id' = if id' = id then some a else lib.node? d id'
  edge?_addNode : ∀ d id a source target,
    lib.edge? (lib.addNode d id a) source target = lib.edge? d source target
  node?_addEdge : ∀ {d source target} a, (lib.node? d source).isSome → (lib.node? d target).isSome →
    ∀ id, lib.node? (lib.addEdge d source target a) id = lib.node? d id
  edge?_addEdge : ∀ {d source target} a, lib.edge? d source target = none → ∀ source' target',
    lib.edge? (lib.addEdge d source target a) source' target' =
      if (source', target') = (source, target) then some a else lib.edge? d source' target'

/-- An edge with its ends and attributes. -/
abbrev Link := (String × String) × Attributes

/-- Adds some nodes, one after the other. -/
def addNodes (lib : GraphLibrary G) (d : G) (nodes : List (String × Attributes)) : G :=
  nodes.foldl (fun d n => lib.addNode d n.1 n.2) d

/-- Adds some edges, one after the other. -/
def addLinks (lib : GraphLibrary G) (d : G) (links : List Link) : G :=
  links.foldl (fun d l => lib.addEdge d l.1.1 l.1.2 l.2) d

namespace Lawful

variable (hlib : lib.Lawful)

include hlib

/-- **New nodes** stand in the graph as they were added. -/
theorem node?_addNodes {d : G} {nodes : List (String × Attributes)}
    (hdistinct : (nodes.map Prod.fst).Nodup) (hnew : ∀ n ∈ nodes, lib.node? d n.1 = none) {id : String}
    {a : Attributes} :
    lib.node? (lib.addNodes d nodes) id = some a ↔ (id, a) ∈ nodes ∨ lib.node? d id = some a := by
  unfold addNodes
  induction nodes generalizing d with
  | nil => simp
  | cons n nodes ih =>
      obtain ⟨first, b⟩ := n
      obtain ⟨hfirst, hrest⟩ := List.forall_mem_cons.mp hnew
      rw [List.map_cons, List.nodup_cons] at hdistinct
      have hstep := hlib.node?_addNode b hfirst
      have hlater : ∀ n ∈ nodes, lib.node? (lib.addNode d first b) n.1 = none := by
        intro n hn
        have hne : n.1 ≠ first := by
          rintro rfl
          exact hdistinct.1 (List.mem_map.mpr ⟨n, hn, rfl⟩)
        rw [hstep, if_neg hne]
        exact hrest n hn
      rw [List.foldl_cons, ih hdistinct.2 hlater, hstep, List.mem_cons]
      by_cases hid : id = first
      · subst hid
        rw [if_pos rfl, hfirst]
        simp [eq_comm, or_comm]
      · simp [hid]

/-- Nodes bring no edges. -/
theorem edge?_addNodes (nodes : List (String × Attributes)) (d : G) (source target : String) :
    lib.edge? (lib.addNodes d nodes) source target = lib.edge? d source target := by
  unfold addNodes
  induction nodes generalizing d with
  | nil => rfl
  | cons n nodes ih => rw [List.foldl_cons, ih, hlib.edge?_addNode]

/-- Edges between nodes that are there change no node. -/
theorem node?_addLinks {d : G} {links : List Link}
    (hends : ∀ l ∈ links, (lib.node? d l.1.1).isSome ∧ (lib.node? d l.1.2).isSome) (id : String) :
    lib.node? (lib.addLinks d links) id = lib.node? d id := by
  unfold addLinks
  induction links generalizing d with
  | nil => rfl
  | cons l links ih =>
      obtain ⟨⟨hsource, htarget⟩, hrest⟩ := List.forall_mem_cons.mp hends
      have hstep := hlib.node?_addEdge l.2 hsource htarget
      rw [List.foldl_cons, ih, hstep]
      intro l' hl'
      rw [hstep, hstep]
      exact hrest l' hl'

/-- **New edges** stand in the graph as they were added. -/
theorem edge?_addLinks {d : G} {links : List Link} (hdistinct : (links.map Prod.fst).Nodup)
    (hnew : ∀ l ∈ links, lib.edge? d l.1.1 l.1.2 = none) {source target : String} {a : Attributes} :
    lib.edge? (lib.addLinks d links) source target = some a ↔
      ((source, target), a) ∈ links ∨ lib.edge? d source target = some a := by
  unfold addLinks
  induction links generalizing d with
  | nil => simp
  | cons l links ih =>
      obtain ⟨⟨source', target'⟩, b⟩ := l
      obtain ⟨hfirst, hrest⟩ := List.forall_mem_cons.mp hnew
      rw [List.map_cons, List.nodup_cons] at hdistinct
      have hstep := hlib.edge?_addEdge b hfirst
      have hlater : ∀ l ∈ links, lib.edge? (lib.addEdge d source' target' b) l.1.1 l.1.2 = none := by
        intro l hl
        have hne : l.1 ≠ (source', target') := by
          intro heq
          exact hdistinct.1 (List.mem_map.mpr ⟨l, hl, heq⟩)
        rw [hstep, if_neg hne]
        exact hrest l hl
      rw [List.foldl_cons, ih hdistinct.2 hlater, hstep, List.mem_cons]
      by_cases hends : (source, target) = (source', target')
      · cases hends
        rw [if_pos rfl, hfirst]
        simp [eq_comm, or_comm]
      · simp [hends]

end Lawful

end GraphLibrary

namespace CallGraph

/-- The nodes of a call graph with their attributes. -/
def attributed (g : CallGraph) : List (String × Attributes) :=
  g.nodes.values.map fun n => (n.id, n.attributes)

/-- The edges of a call graph as edges between nodes: one for every node of the called name. -/
def links (g : CallGraph) : List GraphLibrary.Link :=
  g.edges.flatMap fun e =>
    (g.targetsOf e.callee).map fun target => ((e.caller, target), [("count", .nat e.count)])

/-- The view is made of the nodes first, and then of the edges between them. -/
theorem toDigraph_eq {G : Type} (lib : GraphLibrary G) (g : CallGraph) :
    g.toDigraph lib = lib.addLinks (lib.addNodes lib.empty g.attributed) g.links := by
  unfold toDigraph GraphLibrary.addLinks GraphLibrary.addNodes links attributed
  rw [List.foldl_flatMap, List.foldl_map]
  simp only [List.foldl_map]

/-- A call graph whose nodes stand under their own identifiers and whose edges have known ends, no two
of them the same. -/
structure Proper (g : CallGraph) : Prop where
  id_eq : ∀ id node, g.nodes.get? id = some node → node.id = id
  caller : ∀ e ∈ g.edges, e.caller ∈ g.nodes.keys
  callee : ∀ e ∈ g.edges, ∃ node ∈ g.nodes.values, node.name = e.callee
  ends : (g.edges.map fun e => (e.caller, e.callee)).Nodup

/-- **The call graph of any files is proper.** -/
theorem proper_ofFiles (files : List FileEntry) : (ofFiles files).Proper where
  id_eq := by
    intro id node hnode
    change (nodesOf files).get? id = some node at hnode
    rw [get?_nodesOf] at hnode
    obtain ⟨s, hs, rfl⟩ := Option.map_eq_some_iff.mp hnode
    exact (find?_nodeId_eq_some_iff.mp hs).1
  caller := by
    intro e he
    obtain ⟨-, hsites, hsome⟩ := of_mem_edges he
    obtain ⟨node, hnode, -⟩ := exists_node_of_sites (hsites ▸ hsome)
    exact Roster.mem_keys_iff.mpr ⟨node, hnode⟩
  callee := fun e he => List.mem_map.mp (of_mem_edges he).1
  ends := by
    obtain ⟨edges, hedges, hcollects⟩ := exists_collects files
    rw [hedges]
    exact hcollects.ends_nodup

namespace Proper

variable {g : CallGraph} (hg : g.Proper)

include hg

/-- Every node is kept under its own id. -/
theorem entries_eq : g.nodes.entries = g.nodes.values.map fun n => (n.id, n) := by
  rw [Roster.values, List.map_map]
  refine (List.map_id _).symm.trans (List.map_congr_left fun entry hentry => ?_)
  obtain ⟨id, node⟩ := entry
  exact Prod.ext (hg.id_eq id node (Roster.get?_eq_some_iff.mpr hentry)).symm rfl

/-- So a node is in the graph if it is found under its id. -/
theorem mem_values_iff {node : CallNode} :
    node ∈ g.nodes.values ↔ g.nodes.get? node.id = some node := by
  constructor
  · intro hnode
    obtain ⟨⟨id, node⟩, hmem, rfl⟩ := List.mem_map.mp hnode
    have hget := Roster.get?_eq_some_iff.mpr hmem
    rw [hg.id_eq id node hget]
    exact hget
  · intro hget
    exact List.mem_map_of_mem (Roster.get?_eq_some_iff.mp hget)

/-- What an edge leads to: the nodes of the called name, each once. -/
theorem targetsOf_eq {e : CallEdge} (he : e ∈ g.edges) :
    g.targetsOf e.callee = (g.nodes.values.filter fun n => n.name == e.callee).map CallNode.id := by
  obtain ⟨node, hnode, hname⟩ := hg.callee e he
  have hmem : node.id ∈ (g.nodes.values.filter fun n => n.name == e.callee).map CallNode.id :=
    List.mem_map_of_mem (List.mem_filter.mpr ⟨hnode, beq_iff_eq.mpr hname⟩)
  unfold targetsOf
  split
  · next hnil =>
    rw [hnil] at hmem
    cases hmem
  · rfl

/-- The targets of an edge are the nodes that bear the name that is called. -/
theorem mem_targetsOf_iff {e : CallEdge} (he : e ∈ g.edges) {id : String} :
    id ∈ g.targetsOf e.callee ↔ ∃ node, g.nodes.get? id = some node ∧ node.name = e.callee := by
  rw [hg.targetsOf_eq he, List.mem_map]
  constructor
  · intro h
    obtain ⟨node, hmem, rfl⟩ := h
    obtain ⟨hnode, hname⟩ := List.mem_filter.mp hmem
    exact ⟨node, hg.mem_values_iff.mp hnode, beq_iff_eq.mp hname⟩
  · intro h
    obtain ⟨node, hnode, hname⟩ := h
    obtain rfl := hg.id_eq id node hnode
    exact ⟨node, List.mem_filter.mpr ⟨hg.mem_values_iff.mpr hnode, beq_iff_eq.mpr hname⟩, rfl⟩

/-- No target is listed twice. -/
theorem targetsOf_nodup {e : CallEdge} (he : e ∈ g.edges) : (g.targetsOf e.callee).Nodup := by
  have hids : g.nodes.values.map CallNode.id = g.nodes.keys := by
    rw [Roster.keys, hg.entries_eq, List.map_map]
    rfl
  rw [hg.targetsOf_eq he]
  refine List.Nodup.sublist (List.filter_sublist.map _) ?_
  rw [hids]
  exact g.nodes.nodup

/-- **All edges between nodes have different ends.** -/
theorem links_nodup : (g.links.map Prod.fst).Nodup := by
  have hends : g.links.map Prod.fst =
      g.edges.flatMap fun e => (g.targetsOf e.callee).map fun target => (e.caller, target) := by
    unfold links
    rw [List.map_flatMap]
    simp only [List.map_map]
    rfl
  rw [hends, List.nodup_flatMap]
  refine ⟨fun e he => (hg.targetsOf_nodup he).map fun _ _ h => (Prod.mk.inj h).2, ?_⟩
  refine (List.pairwise_map.mp hg.ends).imp_of_mem fun {e e'} he he' hne => ?_
  intro k hk hk'
  obtain ⟨target, htarget, rfl⟩ := List.mem_map.mp hk
  obtain ⟨target', htarget', heq⟩ := List.mem_map.mp hk'
  obtain ⟨hcaller, rfl⟩ := Prod.mk.inj heq
  -- one node has one name, so both edges are of that name
  obtain ⟨node, hnode, hname⟩ := (hg.mem_targetsOf_iff he).mp htarget
  obtain ⟨node', hnode', hname'⟩ := (hg.mem_targetsOf_iff he').mp htarget'
  obtain rfl : node = node' := Option.some.inj (hnode.symm.trans hnode')
  exact hne (Prod.ext hcaller.symm (hname.symm.trans hname'))

/-- The links lead from the caller of an edge to all nodes of the name that is called, with its
count. -/
theorem mem_links_iff {u v : String} {a : Attributes} :
    ((u, v), a) ∈ g.links ↔ ∃ e ∈ g.edges, ∃ node, g.nodes.get? v = some node ∧
      e.caller = u ∧ e.callee = node.name ∧ a = [("count", .nat e.count)] := by
  unfold links
  rw [List.mem_flatMap]
  refine exists_congr fun e => and_congr_right fun he => ?_
  rw [List.mem_map]
  constructor
  · intro h
    obtain ⟨target, htarget, heq⟩ := h
    cases heq
    obtain ⟨node, hnode, hname⟩ := (hg.mem_targetsOf_iff he).mp htarget
    exact ⟨node, hnode, rfl, hname.symm, rfl⟩
  · intro h
    obtain ⟨node, hnode, rfl, hname, rfl⟩ := h
    exact ⟨v, (hg.mem_targetsOf_iff he).mpr ⟨node, hnode, hname.symm⟩, rfl⟩

/-- The nodes have different identifiers. -/
theorem attributed_nodup : (g.attributed.map Prod.fst).Nodup := by
  have hids : g.attributed.map Prod.fst = g.nodes.keys := by
    rw [attributed, Roster.keys, hg.entries_eq, List.map_map, List.map_map]
    rfl
  rw [hids]
  exact g.nodes.nodup

/-- The nodes are listed with their attributes. -/
theorem mem_attributed_iff {id : String} {a : Attributes} :
    (id, a) ∈ g.attributed ↔ ∃ node, g.nodes.get? id = some node ∧ a = node.attributes := by
  rw [attributed, List.mem_map]
  constructor
  · rintro ⟨node, hnode, heq⟩
    cases heq
    exact ⟨node, hg.mem_values_iff.mp hnode, rfl⟩
  · rintro ⟨node, hnode, rfl⟩
    obtain rfl := hg.id_eq id node hnode
    exact ⟨node, hg.mem_values_iff.mpr hnode, rfl⟩

variable {G : Type} {lib : GraphLibrary G} (hlib : lib.Lawful)

include hlib

/-- The nodes, before any edge is added. -/
theorem node?_addNodes {id : String} {a : Attributes} :
    lib.node? (lib.addNodes lib.empty g.attributed) id = some a ↔
      ∃ node, g.nodes.get? id = some node ∧ a = node.attributes := by
  rw [hlib.node?_addNodes hg.attributed_nodup fun n _ => hlib.node?_empty n.1, hlib.node?_empty,
    hg.mem_attributed_iff]
  simp

/-- **No edge makes a node.** -/
theorem node?_toDigraph {id : String} {a : Attributes} :
    lib.node? (g.toDigraph lib) id = some a ↔
      ∃ node, g.nodes.get? id = some node ∧ a = node.attributes := by
  have hthere {id : String} (hid : id ∈ g.nodes.keys) :
      (lib.node? (lib.addNodes lib.empty g.attributed) id).isSome := by
    obtain ⟨node, hnode⟩ := Roster.mem_keys_iff.mp hid
    exact Option.isSome_iff_exists.mpr ⟨_, (hg.node?_addNodes hlib).mpr ⟨node, hnode, rfl⟩⟩
  rw [toDigraph_eq, hlib.node?_addLinks, hg.node?_addNodes hlib]
  rintro ⟨⟨u, v⟩, a⟩ hlink
  obtain ⟨e, he, node, hnode, rfl, -⟩ := hg.mem_links_iff.mp hlink
  exact ⟨hthere (hg.caller e he), hthere (Roster.mem_keys_iff.mpr ⟨node, hnode⟩)⟩

/-- **No edge is added twice**, so each stands in the view as it was added. -/
theorem edge?_toDigraph {u v : String} {a : Attributes} :
    lib.edge? (g.toDigraph lib) u v = some a ↔ ((u, v), a) ∈ g.links := by
  have hnone (u v : String) : lib.edge? (lib.addNodes lib.empty g.attributed) u v = none := by
    rw [hlib.edge?_addNodes, hlib.edge?_empty]
  rw [toDigraph_eq, hlib.edge?_addLinks hg.links_nodup fun l _ => hnone l.1.1 l.1.2, hnone]
  simp

end Proper

/-- **Nothing is lost in the view of a call graph.** Let a call graph be made of any files, and seen as a
directed graph of any lawful library. It then has exactly its own nodes, each with its name, kind, file
and line, so no edge has added one. And it has an edge from one end to another just if the other end is
a node whose name the first one calls; the edge has the count of these calls, and no other attribute. -/
theorem toDigraph_exact {G : Type} {lib : GraphLibrary G} (hlib : lib.Lawful)
    (files : List FileEntry) :
    let g := ofFiles files
    (∀ id a, lib.node? (g.toDigraph lib) id = some a ↔
      ∃ node, g.nodes.get? id = some node ∧
        a = [("name", .text node.name), ("kind", .text node.kind.name), ("file", .text node.file),
          ("line", .integer node.line)]) ∧
      ∀ u v a, lib.edge? (g.toDigraph lib) u v = some a ↔
        ∃ c, a = [("count", .nat c)] ∧ ∃ node, g.nodes.get? v = some node ∧
          ∃ e ∈ g.edges, e.caller = u ∧ e.callee = node.name ∧ e.count = c := by
  intro g
  have hg : g.Proper := proper_ofFiles files
  refine ⟨fun id a => hg.node?_toDigraph hlib, fun u v a => ?_⟩
  rw [hg.edge?_toDigraph hlib, hg.mem_links_iff]
  constructor
  · intro h
    obtain ⟨e, he, node, hnode, hcaller, hcallee, ha⟩ := h
    exact ⟨e.count, ha, node, hnode, e, he, hcaller, hcallee, rfl⟩
  · intro h
    obtain ⟨c, ha, node, hnode, e, he, hcaller, hcallee, rfl⟩ := h
    exact ⟨e, he, node, hnode, hcaller, hcallee, ha⟩

end CallGraph

/-- The library of the graphs that are listed is lawful. -/
theorem Digraph.lawful_library : Digraph.library.Lawful where
  node?_empty _ := rfl
  edge?_empty _ _ := rfl
  node?_addNode {d id} a hnew id' := by
    change (d.nodes.alter id (given a)).get? id' = _
    change d.nodes.get? id = none at hnew
    rw [Roster.get?_alter]
    refine if_ctx_congr Iff.rfl (fun heq => ?_) fun _ => rfl
    rw [heq, hnew]
    rfl
  edge?_addNode _ _ _ _ _ := rfl
  node?_addEdge {d source target} a hsource htarget id := by
    have hmem {id : String} (h : (d.nodes.get? id).isSome) : id ∈ d.nodes.keys :=
      Roster.mem_keys_iff.mpr (Option.isSome_iff_exists.mp h)
    change ((d.nodes.putNew source []).putNew target []).get? id = d.nodes.get? id
    rw [Roster.putNew_of_mem (hmem hsource), Roster.putNew_of_mem (hmem htarget)]
  edge?_addEdge {d source target} a hnew source' target' := by
    change (d.edges.alter (source, target) (given a)).get? (source', target') = _
    change d.edges.get? (source, target) = none at hnew
    rw [Roster.get?_alter]
    refine if_ctx_congr Iff.rfl (fun heq => ?_) fun _ => rfl
    rw [heq, hnew]
    rfl

namespace CallGraph

section TwoTargets

/-- The view of a method `f` that calls `g` twice, where two files have a `g`. -/
def twoTargets : Digraph := (ofFiles [nestedFile, otherFile]).toDigraph Digraph.library

/-- Two calls of a name that two nodes have are one edge to each of them, and no other node is made. -/
theorem toDigraph_exact_twoTargets :
    Digraph.library.Lawful ∧
      twoTargets.nodes.keys = ["a.cs:f", "a.cs:h", "a.cs:g", "b.cs:g"] ∧
      Digraph.library.node? twoTargets "b.cs:g" =
        some [("name", .text "g"), ("kind", .text "function"), ("file", .text "b.cs"),
          ("line", .integer 1)] ∧
      Digraph.library.edge? twoTargets "a.cs:f" "a.cs:g" = some [("count", .nat 2)] ∧
      Digraph.library.edge? twoTargets "a.cs:f" "b.cs:g" = some [("count", .nat 2)] := by
  have hedge : ⟨"a.cs:f", "g", 2, [⟨"a.cs", 1, 5⟩, ⟨"a.cs", 1, 25⟩]⟩ ∈
      (ofFiles [nestedFile, otherFile]).edges := by decide
  obtain ⟨hnodes, hedges⟩ := toDigraph_exact Digraph.lawful_library [nestedFile, otherFile]
  exact ⟨Digraph.lawful_library, by decide, (hnodes _ _).mpr ⟨_, by rfl, rfl⟩,
    (hedges _ _ _).mpr ⟨2, rfl, _, by rfl, _, hedge, rfl, rfl, rfl⟩,
    (hedges _ _ _).mpr ⟨2, rfl, _, by rfl, _, hedge, rfl, rfl, rfl⟩⟩

end TwoTargets

end CallGraph

end Concordance
