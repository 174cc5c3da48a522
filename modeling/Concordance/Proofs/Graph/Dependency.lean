import Concordance.Graph.Dependency
import Concordance.Proofs.Graph.Resolve
import Concordance.Proofs.Roster
import Mathlib.Data.List.Induction

/-!
# Imports and their edges

An import leads from its file to the file that its source resolves to, or else to its source
(`Leads`). Nodes and edges of a dependency graph are made while the imports of all files are gone
through; what stands under each key after any number of imports is said by `get?_foldl_addNode` and
`get?_foldl_addEdge`. So every import belongs to one edge, and an edge has the names of all its
imports in order (`imports_accounted`).

A source that resolves to no file may still be the identifier of a file. It is then no module of its
own: the node stays that of the file.
-/

namespace Concordance

namespace DependencyGraph

/-! ### Where imports lead -/

/-- The identifiers of some files. -/
def fileIds (files : List FileEntry) : List String :=
  files.map FileEntry.file

/-- The imports of some files, each with its file, in order. -/
def placedImports (files : List FileEntry) : List (FileEntry × Import) :=
  files.flatMap fun file => file.imports.map fun i => (file, i)

/-- The file to which an import resolves. -/
def resolved? (files : List FileEntry) (p : FileEntry × Import) : Option String :=
  Graph.resolve? p.2.source p.1.file (fileIds files)

/-- An import leads from its file to the file that it resolves to, or else to its source. -/
def Leads (files : List FileEntry) (source target : String) (p : FileEntry × Import) : Prop :=
  p.1.file = source ∧ (resolved? files p).getD p.2.source = target

instance (files : List FileEntry) (source target : String) (p : FileEntry × Import) :
    Decidable (Leads files source target p) :=
  inferInstanceAs (Decidable (_ ∧ _))

/-- The names under which a file knows what an import brings in. -/
def localNames (p : FileEntry × Import) : List String :=
  p.2.specifiers.map ImportSpecifier.localName

/-- The imports that lead from a file to a target, in order. -/
def importsAlong (files : List FileEntry) (source target : String) : List (FileEntry × Import) :=
  (placedImports files).filter (Leads files source target)

variable {files : List FileEntry} {source target id : String} {p : FileEntry × Import}

/-- What an import is taken for. -/
theorem dependencyOf_eq (files : List FileEntry) (p : FileEntry × Import) :
    dependencyOf (fileIds files) p.1.file p.2 =
      ⟨p.1.file, (resolved? files p).getD p.2.source, (resolved? files p).isNone, localNames p⟩ := by
  unfold dependencyOf resolved?
  dsimp only
  cases Graph.resolve? p.2.source p.1.file (fileIds files) with
  | none => rfl
  | some target => rfl

/-- There is one dependency for each import, in the order of the files. -/
theorem dependenciesOf_eq (files : List FileEntry) :
    dependenciesOf files =
      (placedImports files).map fun p => dependencyOf (fileIds files) p.1.file p.2 := by
  unfold dependenciesOf placedImports
  rw [List.map_flatMap]
  simp only [List.map_map]
  rfl

/-! ### Nodes -/

/-- The nodes of the files alone. -/
theorem get?_fileNodes (files : List FileEntry) (id : String) :
    (fileNodes files).get? id = if id ∈ fileIds files then some ⟨id, false⟩ else none := by
  unfold fileNodes fileIds
  induction files using List.reverseRecOn with
  | nil => rfl
  | append_singleton files file ih =>
      rw [List.foldl_append, List.foldl_cons, List.foldl_nil, Roster.get?_put, ih, List.map_append]
      by_cases hid : id = file.file
      · simp [hid]
      · simp [hid]

/-- One import adds the node of a module outside the files, unless there is such a node. -/
theorem get?_addNode (nodes : Roster String DependencyNode) (d : Dependency) (id : String) :
    (addNode nodes d).get? id =
      (nodes.get? id).or (if d.isExternal = true ∧ d.target = id then some ⟨id, true⟩ else none) := by
  unfold addNode
  by_cases hexternal : d.isExternal = true
  · rw [if_pos hexternal, Roster.get?_putNew]
    by_cases hid : id = d.target
    · simp [hexternal, hid]
    · simp [hid, Ne.symm hid]
  · simp [hexternal]

/-- Any imports add the nodes of the modules outside the files that they lead to. -/
theorem get?_foldl_addNode (nodes : Roster String DependencyNode) (ds : List Dependency)
    (id : String) :
    (ds.foldl addNode nodes).get? id =
      (nodes.get? id).or
        (if ∃ d ∈ ds, d.isExternal = true ∧ d.target = id then some ⟨id, true⟩ else none) := by
  induction ds using List.reverseRecOn with
  | nil => simp
  | append_singleton ds d ih =>
      rw [List.foldl_append, List.foldl_cons, List.foldl_nil, get?_addNode, ih, Option.or_assoc]
      congr 1
      by_cases hearlier : ∃ d ∈ ds, d.isExternal = true ∧ d.target = id
      · have hlater : ∃ c ∈ ds ++ [d], c.isExternal = true ∧ c.target = id := by
          obtain ⟨c, hc, hid⟩ := hearlier
          exact ⟨c, List.mem_append_left _ hc, hid⟩
        rw [if_pos hearlier, if_pos hlater, Option.some_or]
      · have hlast : (∃ c ∈ ds ++ [d], c.isExternal = true ∧ c.target = id) ↔
            d.isExternal = true ∧ d.target = id := by
          constructor
          · rintro ⟨c, hc, hid⟩
            rcases List.mem_append.mp hc with hc | hc
            · exact absurd ⟨c, hc, hid⟩ hearlier
            · rw [← List.mem_singleton.mp hc]
              exact hid
          · exact fun hid => ⟨d, by simp, hid⟩
        rw [if_neg hearlier, Option.none_or]
        simp only [hlast]

/-- **The nodes.** A node is a file, or else the source of an import that resolves to no file. -/
theorem get?_nodes (files : List FileEntry) (id : String) :
    (ofFiles files).nodes.get? id =
      if id ∈ fileIds files then some ⟨id, false⟩
      else if ∃ p ∈ placedImports files, resolved? files p = none ∧ p.2.source = id then
        some ⟨id, true⟩
      else none := by
  have hmodules : (∃ d ∈ dependenciesOf files, d.isExternal = true ∧ d.target = id) ↔
      ∃ p ∈ placedImports files, resolved? files p = none ∧ p.2.source = id := by
    have hmeans : ∀ p : FileEntry × Import,
        ((resolved? files p).isNone = true ∧ (resolved? files p).getD p.2.source = id) ↔
          resolved? files p = none ∧ p.2.source = id := by
      intro p
      cases resolved? files p with
      | none => simp
      | some target => simp
    rw [dependenciesOf_eq]
    simp only [List.mem_map, exists_exists_and_eq_and, dependencyOf_eq, hmeans]
  unfold ofFiles
  dsimp only
  rw [get?_foldl_addNode, get?_fileNodes]
  simp only [hmodules]
  by_cases hid : id ∈ fileIds files
  · rw [if_pos hid, if_pos hid, Option.some_or]
  · rw [if_neg hid, if_neg hid, Option.none_or]

/-! ### Edges -/

/-- One import adds its names to the edge of its two ends. -/
theorem get?_addEdge (edges : Roster (String × String) (List String)) (d : Dependency)
    (k : String × String) :
    (addEdge edges d).get? k =
      if k = (d.source, d.target) then some ((edges.get? k).getD [] ++ d.names)
      else edges.get? k :=
  edges.get?_alter _ k _

/-- Those of some imports that have two ends. -/
def between (ds : List Dependency) (k : String × String) : List Dependency :=
  ds.filter fun d => (d.source, d.target) = k

/-- The names that an edge of some imports has; without imports there is no edge. -/
def edgeNames? (ds : List Dependency) : Option (List String) :=
  if ds = [] then none else some (ds.flatMap Dependency.names)

/-- The names along an edge are those of all its dependencies. -/
theorem getD_edgeNames? (ds : List Dependency) :
    (edgeNames? ds).getD [] = ds.flatMap Dependency.names := by
  unfold edgeNames?
  split
  · next hnone => rw [hnone]; rfl
  · rfl

/-- Any imports make an edge for each pair of ends that they have, with the names of all of them. -/
theorem get?_foldl_addEdge (ds : List Dependency) (k : String × String) :
    (ds.foldl addEdge .empty).get? k = edgeNames? (between ds k) := by
  induction ds using List.reverseRecOn with
  | nil => rfl
  | append_singleton ds d ih =>
      rw [List.foldl_append, List.foldl_cons, List.foldl_nil, get?_addEdge, ih]
      by_cases hk : k = (d.source, d.target)
      · have hmore : between (ds ++ [d]) k = between ds k ++ [d] := by
          simp [between, hk]
        rw [if_pos hk, getD_edgeNames?, hmore, edgeNames?, if_neg (by simp), List.flatMap_append,
          List.flatMap_singleton]
      · have hsame : between (ds ++ [d]) k = between ds k := by
          simp [between, Ne.symm hk]
        rw [if_neg hk, hsame]

/-- **The edges.** There is an edge for each pair of ends between which imports lead, and it has the
names of all of them. -/
theorem mem_edges_iff {e : DependencyEdge} :
    e ∈ (ofFiles files).edges ↔
      importsAlong files e.source e.target ≠ [] ∧
        e.names = (importsAlong files e.source e.target).flatMap localNames := by
  have hbetween : between (dependenciesOf files) (e.source, e.target) =
      (importsAlong files e.source e.target).map fun p =>
        dependencyOf (fileIds files) p.1.file p.2 := by
    rw [dependenciesOf_eq, between, List.filter_map, importsAlong]
    congr 2
    funext p
    simp only [Function.comp_apply, dependencyOf_eq, Prod.mk.injEq]
    rfl
  have hentries : e ∈ (ofFiles files).edges ↔
      ((dependenciesOf files).foldl addEdge .empty).get? (e.source, e.target) = some e.names := by
    rw [Roster.get?_eq_some_iff]
    unfold ofFiles
    dsimp only
    rw [List.mem_map]
    constructor
    · rintro ⟨⟨⟨source, target⟩, names⟩, hmem, rfl⟩
      exact hmem
    · exact fun hmem => ⟨_, hmem, rfl⟩
  rw [hentries, get?_foldl_addEdge, hbetween, edgeNames?, List.flatMap_map]
  simp only [List.map_eq_nil_iff, dependencyOf_eq]
  by_cases hnone : importsAlong files e.source e.target = []
  · simp [hnone]
  · simp [hnone, eq_comm]

/-- Two edges with the same ends are one. -/
theorem eq_of_mem_edges {e e' : DependencyEdge} (he : e ∈ (ofFiles files).edges)
    (he' : e' ∈ (ofFiles files).edges) (hsource : e.source = e'.source)
    (htarget : e.target = e'.target) : e = e' := by
  have hnames := (mem_edges_iff.mp he).2
  rw [hsource, htarget, ← (mem_edges_iff.mp he').2] at hnames
  cases e
  cases e'
  cases hsource
  cases htarget
  cases hnames
  rfl

/-- No two edges join the same nodes in the same direction. -/
theorem nodup_edges (files : List FileEntry) :
    ((ofFiles files).edges.map fun e => (e.source, e.target)).Nodup := by
  unfold ofFiles
  dsimp only
  rw [List.map_map]
  exact ((dependenciesOf files).foldl addEdge .empty).nodup

/-- The imports along an edge are those that lead from its source to its target. -/
theorem mem_importsAlong_iff :
    p ∈ importsAlong files source target ↔
      p ∈ placedImports files ∧ Leads files source target p := by
  rw [importsAlong, List.mem_filter, decide_eq_true_eq]

/-- Between the ends of an edge there is an import. -/
theorem exists_import {e : DependencyEdge} (he : e ∈ (ofFiles files).edges) :
    ∃ p ∈ placedImports files, Leads files e.source e.target p := by
  obtain ⟨p, hp⟩ := List.exists_mem_of_ne_nil _ (mem_edges_iff.mp he).1
  exact ⟨p, mem_importsAlong_iff.mp hp⟩

/-- Where an import leads there is an edge. -/
theorem exists_edge (hp : p ∈ placedImports files) (hleads : Leads files source target p) :
    ∃ e ∈ (ofFiles files).edges, e.source = source ∧ e.target = target := by
  have hsome := List.ne_nil_of_mem (mem_importsAlong_iff.mpr ⟨hp, hleads⟩)
  let e : DependencyEdge := ⟨source, target, (importsAlong files source target).flatMap localNames⟩
  have he : e ∈ (ofFiles files).edges := mem_edges_iff.mpr ⟨hsome, rfl⟩
  exact ⟨e, he, rfl, rfl⟩

/-- A file with an import is one of the files. -/
theorem file_mem_fileIds (hp : p ∈ placedImports files) : p.1.file ∈ fileIds files := by
  obtain ⟨file, hfile, hp⟩ := List.mem_flatMap.mp hp
  obtain ⟨i, -, rfl⟩ := List.mem_map.mp hp
  exact List.mem_map_of_mem hfile

/-- An import leads to a file or to a module outside the files, so to a node. -/
theorem target_mem (hp : p ∈ placedImports files) (hleads : Leads files source target p) :
    target ∈ fileIds files ∨
      ∃ q ∈ placedImports files, resolved? files q = none ∧ q.2.source = target := by
  obtain ⟨-, htarget⟩ := hleads
  cases hresolved : resolved? files p with
  | none =>
      rw [hresolved] at htarget
      exact .inr ⟨p, hp, hresolved, htarget⟩
  | some file =>
      rw [hresolved] at htarget
      exact .inl (htarget ▸ Graph.mem_of_resolve? hresolved)

/-- The nodes are the files, and the sources of imports that lead to none of them. -/
theorem mem_nodes_iff :
    id ∈ (ofFiles files).nodes.keys ↔
      id ∈ fileIds files ∨
        ∃ p ∈ placedImports files, resolved? files p = none ∧ p.2.source = id := by
  rw [Roster.mem_keys_iff, get?_nodes]
  by_cases hfile : id ∈ fileIds files
  · simp [hfile]
  · by_cases hmodule : ∃ p ∈ placedImports files, resolved? files p = none ∧ p.2.source = id
    · rw [if_neg hfile, if_pos hmodule]
      exact ⟨fun _ => .inr hmodule, fun _ => ⟨_, rfl⟩⟩
    · rw [if_neg hfile, if_neg hmodule]
      simp [hfile, hmodule]

/-- **The dependency graph accounts for every import exactly once.** Let a dependency graph be made of
any files. Its nodes are the files and the sources of the imports that resolve to no file, and a node is
external if and only if it is no file. No two edges have the same ends, and both ends of an edge are
nodes. An edge has at least one import, and its names are, in order, the local names of all imports that
lead from its file to its target. An import resolves to a file of the graph, if at all; it belongs to
exactly one edge, which leads to that file, or else to the source of the import. -/
theorem imports_accounted (files : List FileEntry) :
    let g := ofFiles files
    (∀ id, id ∈ g.nodes.keys ↔
      id ∈ fileIds files ∨
        ∃ p ∈ placedImports files, resolved? files p = none ∧ p.2.source = id) ∧
      (∀ id node, g.nodes.get? id = some node →
        node.id = id ∧ (node.isExternal = true ↔ id ∉ fileIds files)) ∧
      (g.edges.map fun e => (e.source, e.target)).Nodup ∧
      (∀ e ∈ g.edges,
        e.source ∈ g.nodes.keys ∧ e.target ∈ g.nodes.keys ∧
          (∃ p ∈ placedImports files, Leads files e.source e.target p) ∧
          e.names = (importsAlong files e.source e.target).flatMap localNames) ∧
      ∀ p ∈ placedImports files,
        (∀ target, resolved? files p = some target → target ∈ fileIds files) ∧
          ∃! e, e ∈ g.edges ∧ e.source = p.1.file ∧
            e.target = (resolved? files p).getD p.2.source := by
  intro g
  refine ⟨fun id => mem_nodes_iff, ?_, nodup_edges files, ?_, ?_⟩
  · intro id node hnode
    rw [get?_nodes] at hnode
    split at hnode
    · next hfile =>
      cases hnode
      simp [hfile]
    · next hfile =>
      split at hnode
      · cases hnode
        simp [hfile]
      · cases hnode
  · intro e he
    obtain ⟨p, hp, hleads⟩ := exists_import he
    have hsource : e.source ∈ fileIds files := hleads.1 ▸ file_mem_fileIds hp
    exact ⟨mem_nodes_iff.mpr (.inl hsource), mem_nodes_iff.mpr (target_mem hp hleads),
      ⟨p, hp, hleads⟩, (mem_edges_iff.mp he).2⟩
  · intro p hp
    refine ⟨fun target htarget => Graph.mem_of_resolve? htarget, ?_⟩
    obtain ⟨e, he, hsource, htarget⟩ := exists_edge hp ⟨rfl, rfl⟩
    refine ⟨e, ⟨he, hsource, htarget⟩, ?_⟩
    rintro e' ⟨he', hsource', htarget'⟩
    exact eq_of_mem_edges he' he (hsource'.trans hsource.symm) (htarget'.trans htarget.symm)

end DependencyGraph

end Concordance
