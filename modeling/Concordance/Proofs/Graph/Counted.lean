import Concordance.Proofs.Graph.Call
import Concordance.Proofs.Path

/-!
# Which calls are counted

A call inside a callable is counted if its name is known, that is, if a node has it. Symbols with one
identifier are one node, and the node has the name of the first of them. So a name is known if some
symbol of that name is the first to have its identifier (`Represented`), and a name all of whose
symbols come after others with their identifiers is lost, together with all calls of it.

So the edges of a call graph partition the calls of known names (`ofFiles_edges`), and a call inside a
callable is counted just if its name is known (`counted_once_iff_represented`).

The identifier of a symbol is made of texts that may have dots and colons in them. A symbol `A.B` and
a member `B` of `A` have one identifier; names without dots and colons can be read off it
(`Symbol.name_eq_of_nodeId`).
-/

namespace Concordance

/-! ### What an identifier tells -/

namespace Symbol

/-- Names that cannot be mistaken for a longer part of an identifier. -/
def HasPlainName (s : Symbol) : Prop :=
  '.' ∉ s.name.toList ∧ ':' ∉ s.name.toList

instance (s : Symbol) : Decidable s.HasPlainName :=
  inferInstanceAs (Decidable (_ ∧ _))

/-- An identifier ends with a mark and the name. -/
theorem exists_nodeId_eq (s : Symbol) :
    ∃ front mark, (mark = '.' ∨ mark = ':') ∧ s.nodeId.toList = front ++ mark :: s.name.toList := by
  unfold nodeId qualifiedName
  cases s.namedOwner with
  | none => exact ⟨s.file.toList, ':', .inr rfl, by simp⟩
  | some owner => exact ⟨s.file.toList ++ ':' :: owner.toList, '.', .inl rfl, by simp⟩

/-- **A plain name can be read off the identifier.** -/
theorem name_eq_of_nodeId {s t : Symbol} (hs : s.HasPlainName) (ht : t.HasPlainName)
    (hid : s.nodeId = t.nodeId) : s.name = t.name := by
  obtain ⟨front, mark, hmark, hfront⟩ := s.exists_nodeId_eq
  obtain ⟨front', mark', hmark', hfront'⟩ := t.exists_nodeId_eq
  have hunmarked : ∀ u : Symbol, u.HasPlainName → ∀ c ∈ u.name.toList, ¬ (c = '.' ∨ c = ':') := by
    rintro u hu c hc (rfl | rfl)
    · exact hu.1 hc
    · exact hu.2 hc
  have hsame := Chars.eq_of_append_mark _ hmark hmark' (hunmarked s hs) (hunmarked t ht)
    (hfront.symm.trans ((congrArg String.toList hid).trans hfront'))
  exact String.toList_inj.mp hsame

end Symbol

namespace CallGraph

/-! ### Known names -/

/-- Some symbol of a name is the first of all symbols to have its identifier. -/
def Represented (files : List FileEntry) (name : String) : Prop :=
  ∃ earlier s later, files.flatMap FileEntry.symbols = earlier ++ s :: later ∧ s.name = name ∧
    ∀ t ∈ earlier, t.nodeId ≠ s.nodeId

/-- The names that the nodes of some files have. -/
def knownNames (files : List FileEntry) : List String :=
  (nodesOf files).values.map CallNode.name

variable {files : List FileEntry} {name : String}

/-- The first symbol with an identifier. -/
theorem find?_nodeId_eq_some_iff {symbols : List Symbol} {id : String} {s : Symbol} :
    (symbols.find? fun t => t.nodeId = id) = some s ↔
      s.nodeId = id ∧
        ∃ earlier later, symbols = earlier ++ s :: later ∧ ∀ t ∈ earlier, t.nodeId ≠ s.nodeId := by
  rw [List.find?_eq_some_iff_append, decide_eq_true_eq]
  refine and_congr_right fun hid => ?_
  subst hid
  simp

/-- The nodes are the first symbols with their identifiers. -/
theorem mem_nodesOf_iff {node : CallNode} :
    node ∈ (nodesOf files).values ↔
      ∃ earlier s later, files.flatMap FileEntry.symbols = earlier ++ s :: later ∧
        (∀ t ∈ earlier, t.nodeId ≠ s.nodeId) ∧ nodeOf s = node := by
  constructor
  · intro hnode
    obtain ⟨⟨id, node⟩, hmem, rfl⟩ := List.mem_map.mp hnode
    have hget := Roster.get?_eq_some_iff.mpr hmem
    rw [get?_nodesOf] at hget
    obtain ⟨s, hfind, hs⟩ := Option.map_eq_some_iff.mp hget
    obtain ⟨-, earlier, later, hsplit, hearlier⟩ := find?_nodeId_eq_some_iff.mp hfind
    exact ⟨earlier, s, later, hsplit, hearlier, hs⟩
  · rintro ⟨earlier, s, later, hsplit, hearlier, rfl⟩
    have hget : (nodesOf files).get? s.nodeId = some (nodeOf s) := by
      rw [get?_nodesOf, find?_nodeId_eq_some_iff.mpr ⟨rfl, earlier, later, hsplit, hearlier⟩]
      rfl
    exact List.mem_map_of_mem (Roster.get?_eq_some_iff.mp hget)

/-- A name is known if it is that of a symbol which is the first with its identifier, since the node is
made of that one. -/
theorem mem_knownNames_iff : name ∈ knownNames files ↔ Represented files name := by
  unfold knownNames Represented
  rw [List.mem_map]
  constructor
  · rintro ⟨node, hnode, rfl⟩
    obtain ⟨earlier, s, later, hsplit, hearlier, rfl⟩ := mem_nodesOf_iff.mp hnode
    exact ⟨earlier, s, later, hsplit, rfl, hearlier⟩
  · rintro ⟨earlier, s, later, hsplit, rfl, hearlier⟩
    exact ⟨nodeOf s, mem_nodesOf_iff.mpr ⟨earlier, s, later, hsplit, hearlier, rfl⟩, rfl⟩

instance (files : List FileEntry) (name : String) : Decidable (Represented files name) :=
  decidable_of_iff _ mem_knownNames_iff

/-- Among symbols with plain names every name is known. -/
theorem represented_of_plain
    (hplain : ∀ s ∈ files.flatMap FileEntry.symbols, s.HasPlainName) {s : Symbol}
    (hs : s ∈ files.flatMap FileEntry.symbols) : Represented files s.name := by
  -- the first symbol with the identifier of `s` also has its name
  have hsome : ((files.flatMap FileEntry.symbols).find? fun t => t.nodeId = s.nodeId).isSome := by
    rw [List.find?_isSome]
    exact ⟨s, hs, by simp⟩
  obtain ⟨first, hfind⟩ := Option.isSome_iff_exists.mp hsome
  obtain ⟨hid, earlier, later, hsplit, hearlier⟩ := find?_nodeId_eq_some_iff.mp hfind
  have hfirst := hplain first (List.mem_of_find?_eq_some hfind)
  exact ⟨earlier, first, later, hsplit, Symbol.name_eq_of_nodeId hfirst (hplain s hs) hid, hearlier⟩

/-! ### Edges and single references -/

variable {placed before after : List (FileEntry × Reference)} {file : FileEntry} {r : Reference}
  {caller callee : String} {e e' : CallEdge}

/-- The edges of a call graph collect all references. -/
theorem exists_collects (files : List FileEntry) :
    ∃ edges : Roster (String × String) CallEdge, (ofFiles files).edges = edges.values ∧
      Collects (knownNames files) (placedReferences files) edges := by
  refine ⟨_, rfl, ?_⟩
  rw [flatMap_attributedOf]
  exact collects_foldl _ _

/-- An edge is what its two ends make it. -/
theorem mem_edges_iff :
    e ∈ (ofFiles files).edges ↔
      edgeAmong (knownNames files) (placedReferences files) e.caller e.callee = some e := by
  obtain ⟨edges, hedges, hcollects⟩ := exists_collects files
  rw [hedges, ← hcollects.get, Roster.get?_eq_some_iff]
  constructor
  · intro he
    obtain ⟨⟨k, e⟩, hmem, rfl⟩ := List.mem_map.mp he
    obtain ⟨rfl, -⟩ := hcollects.edge_eq hmem
    exact hmem
  · exact fun hmem => List.mem_map_of_mem hmem

/-- What an edge says. -/
theorem of_mem_edges (he : e ∈ (ofFiles files).edges) :
    e.callee ∈ knownNames files ∧
      e.sites = sitesAmong (placedReferences files) e.caller e.callee ∧ e.sites ≠ [] := by
  have hedge := mem_edges_iff.mp he
  unfold edgeAmong at hedge
  split at hedge
  · next hcalls =>
    have hsites := congrArg CallEdge.sites (Option.some.inj hedge)
    exact ⟨hcalls.1, hsites.symm, hsites ▸ hcalls.2⟩
  · cases hedge

/-- Two edges with the same ends are one. -/
theorem eq_of_mem_edges (he : e ∈ (ofFiles files).edges) (he' : e' ∈ (ofFiles files).edges)
    (hends : (e.caller, e.callee) = (e'.caller, e'.callee)) : e = e' := by
  obtain ⟨hcaller, hcallee⟩ := Prod.mk.inj hends
  have hedge := mem_edges_iff.mp he
  rw [hcaller, hcallee, mem_edges_iff.mp he'] at hedge
  exact (Option.some.inj hedge).symm

/-- A call of a known name by a callable has an edge. -/
theorem exists_edge (hmem : (file, r) ∈ placedReferences files) (hcalls : Calls file r caller callee)
    (hknown : callee ∈ knownNames files) :
    ∃ e ∈ (ofFiles files).edges, e.caller = caller ∧ e.callee = callee := by
  have hcall : (file, r) ∈ callsAmong (placedReferences files) caller callee :=
    List.mem_filter.mpr ⟨hmem, decide_eq_true hcalls⟩
  let sites := sitesAmong (placedReferences files) caller callee
  have hsites : sites ≠ [] := List.ne_nil_of_mem (List.mem_map_of_mem hcall)
  refine ⟨⟨caller, callee, sites.length, sites⟩, mem_edges_iff.mpr ?_, rfl, rfl⟩
  exact if_pos ⟨hknown, hsites⟩

/-- The sites among two lists of references, one list after the other. -/
theorem sitesAmong_append (placed placed' : List (FileEntry × Reference)) :
    sitesAmong (placed ++ placed') caller callee =
      sitesAmong placed caller callee ++ sitesAmong placed' caller callee := by
  rw [sitesAmong, callsAmong, List.filter_append, List.map_append]
  rfl

/-- The places among some references around one of them. -/
theorem sitesAmong_around (p : FileEntry × Reference) :
    sitesAmong (before ++ p :: after) caller callee =
      sitesAmong before caller callee ++
        ((if Calls p.1 p.2 caller callee then [siteOf p.2] else []) ++
          sitesAmong after caller callee) := by
  rw [List.append_cons, sitesAmong_append, sitesAmong_concat, List.append_assoc]

/-- An edge counts the reference between some others: its places are those of its calls before, the
place of the reference, and those of its calls after. -/
def Counts (before : List (FileEntry × Reference)) (r : Reference)
    (after : List (FileEntry × Reference)) (e : CallEdge) : Prop :=
  e.sites = sitesAmong before e.caller e.callee ++
    siteOf r :: sitesAmong after e.caller e.callee

/-- An edge passes over what stands between some references: it only has the places of its calls
before and after. -/
def PassesOver (before after : List (FileEntry × Reference)) (e : CallEdge) : Prop :=
  e.sites = sitesAmong before e.caller e.callee ++ sitesAmong after e.caller e.callee

/-- An edge counts the calls of its callable and its name, and passes over all other references. -/
theorem counts_or_passesOver (hplaced : placedReferences files = before ++ (file, r) :: after)
    (he : e ∈ (ofFiles files).edges) :
    (Counts before r after e ↔ Calls file r e.caller e.callee) ∧
      (PassesOver before after e ↔ ¬ Calls file r e.caller e.callee) := by
  have hsites := (of_mem_edges he).2.1
  rw [hplaced, sitesAmong_around] at hsites
  unfold Counts PassesOver
  rw [hsites]
  by_cases hcalls : Calls file r e.caller e.callee
  · simp [hcalls]
  · simp [hcalls]

/-- A call that starts in the range of a callable of its file is a call by some callable. -/
theorem exists_calls (hcall : r.kind = .call)
    (hinside : ∃ s ∈ file.symbols, s.kind.isCallable = true ∧
      s.span.start.notAfter r.span.start = true ∧ r.span.start.notAfter s.span.stop = true) :
    ∃ caller, Calls file r caller r.name := by
  obtain ⟨s, hs, hkind, hstart, hstop⟩ := hinside
  have hmem : s ∈ callablesOf file := List.mem_filter.mpr ⟨hs, hkind⟩
  have haround : hasPoint s.span r.span.start.line r.span.start.column = true :=
    Bool.and_eq_true_iff.mpr ⟨hstart, hstop⟩
  obtain ⟨t, ht⟩ := exists_isInnermost hmem haround
  exact ⟨t.nodeId, hcall, rfl, t, ht, rfl⟩

/-- A call by a callable is counted on exactly one edge if its name is known. -/
theorem existsUnique_counts (hplaced : placedReferences files = before ++ (file, r) :: after)
    (hcalls : Calls file r caller r.name) (hknown : r.name ∈ knownNames files) :
    ∃! e, e ∈ (ofFiles files).edges ∧ Counts before r after e := by
  have hmem : (file, r) ∈ placedReferences files := by simp [hplaced]
  obtain ⟨e, he, hcaller, hcallee⟩ := exists_edge hmem hcalls hknown
  have hown : Calls file r e.caller e.callee := by
    rw [hcaller, hcallee]
    exact hcalls
  refine ⟨e, ⟨he, (counts_or_passesOver hplaced he).1.mpr hown⟩, ?_⟩
  rintro e' ⟨he', hcounts⟩
  have hother := (counts_or_passesOver hplaced he').1.mp hcounts
  exact eq_of_mem_edges he' he (hother.unique hown)

/-- **A call inside a callable is counted if and only if its name is known.** Let a reference be a
call that starts in the range of a callable of its file. It is counted on exactly one edge if some
symbol of its name is the first of all symbols to have its identifier; otherwise every edge passes
over it, also where there are symbols of its name. If no symbol has a dot or colon in its name, the
call is counted as soon as any symbol of any file has its name. -/
theorem counted_once_iff_represented
    (hplaced : placedReferences files = before ++ (file, r) :: after) (hcall : r.kind = .call)
    (hinside : ∃ s ∈ file.symbols, s.kind.isCallable = true ∧
      s.span.start.notAfter r.span.start = true ∧ r.span.start.notAfter s.span.stop = true) :
    ((∃! e, e ∈ (ofFiles files).edges ∧ Counts before r after e) ↔ Represented files r.name) ∧
      ((∀ e ∈ (ofFiles files).edges, PassesOver before after e) ↔ ¬ Represented files r.name) ∧
      ((∀ s ∈ files.flatMap FileEntry.symbols, s.HasPlainName) →
        (∃ s ∈ files.flatMap FileEntry.symbols, s.name = r.name) →
        ∃! e, e ∈ (ofFiles files).edges ∧ Counts before r after e) := by
  obtain ⟨caller, hcalls⟩ := exists_calls hcall hinside
  have hcounted (hname : Represented files r.name) :
      ∃! e, e ∈ (ofFiles files).edges ∧ Counts before r after e :=
    existsUnique_counts hplaced hcalls (mem_knownNames_iff.mpr hname)
  have hknown {e : CallEdge} (he : e ∈ (ofFiles files).edges)
      (hcalls : Calls file r e.caller e.callee) : Represented files r.name := by
    rw [hcalls.callee]
    exact mem_knownNames_iff.mp (of_mem_edges he).1
  refine ⟨⟨?_, hcounted⟩, ⟨?_, ?_⟩, ?_⟩
  · rintro ⟨e, ⟨he, hcounts⟩, -⟩
    exact hknown he ((counts_or_passesOver hplaced he).1.mp hcounts)
  · intro hpasses hname
    obtain ⟨e, ⟨he, hcounts⟩, -⟩ := hcounted hname
    exact (counts_or_passesOver hplaced he).2.mp (hpasses e he)
      ((counts_or_passesOver hplaced he).1.mp hcounts)
  · intro hname e he
    exact (counts_or_passesOver hplaced he).2.mpr fun hcalls => hname (hknown he hcalls)
  · rintro hplain ⟨s, hs, hname⟩
    apply hcounted
    rw [← hname]
    exact represented_of_plain hplain hs

section Merged

/-- A stretch of the only line of a file. -/
def onLine (start stop : Int) : Span :=
  ⟨⟨1, start, start⟩, ⟨1, stop, stop⟩⟩

/-- A symbol on the only line of a file. -/
def lineSymbol (name : String) (kind : SymbolKind) (owner : Option String) (start stop : Int) :
    Symbol :=
  { name, kind, owner, span := onLine start stop, nameSpan := onLine start stop, file := "a.cs"
    language := "csharp" }

/-- The call in the method `C`. -/
def mergedCall : Reference where
  name := "B"
  file := "a.cs"
  span := onLine 49 50
  context := "namespace A.B { class A { void B() {} void C() { B(); } } }"
  kind := .call

/-- A file with a namespace `A.B` and in it a class `A` with methods `B` and `C`, of which the second
calls the first. -/
def mergedFile : FileEntry where
  file := "a.cs"
  language := "csharp"
  digest := ""
  symbols :=
    [lineSymbol "A.B" .namespaceUnit none 0 59, lineSymbol "A" .classType (some "A.B") 16 57,
     lineSymbol "B" .method (some "A") 26 37, lineSymbol "C" .method (some "A") 38 55]
  references := [mergedCall]

/-- The method `B` of `A` has the identifier of the namespace `A.B` and is no node, so the call of it
is passed over. -/
theorem counted_once_iff_represented_merged :
    (∃ s ∈ mergedFile.symbols, s.name = mergedCall.name) ∧
      ¬ Represented [mergedFile] mergedCall.name ∧
      (¬ ∃! e, e ∈ (ofFiles [mergedFile]).edges ∧ Counts [] mergedCall [] e) ∧
      ∀ e ∈ (ofFiles [mergedFile]).edges, PassesOver [] [] e := by
  have hlost : ¬ Represented [mergedFile] mergedCall.name := by decide
  have hinside : ∃ s ∈ mergedFile.symbols, s.kind.isCallable = true ∧
      s.span.start.notAfter mergedCall.span.start = true ∧
        mergedCall.span.start.notAfter s.span.stop = true :=
    ⟨lineSymbol "C" .method (some "A") 38 55, by decide, by decide, by decide, by decide⟩
  have hplaced : placedReferences [mergedFile] = [] ++ (mergedFile, mergedCall) :: [] := rfl
  obtain ⟨hcounted, hpassed, -⟩ := counted_once_iff_represented hplaced rfl hinside
  exact ⟨by decide, hlost, fun h => hlost (hcounted.mp h), hpassed.mpr hlost⟩

end Merged

/-! ### All edges -/

/-- A node is what the first symbol with its identifier makes it. -/
theorem get?_nodesOf_eq_some_iff {id : String} {node : CallNode} :
    (nodesOf files).get? id = some node ↔
      ∃ earlier s later, files.flatMap FileEntry.symbols = earlier ++ s :: later ∧
        (∀ t ∈ earlier, t.nodeId ≠ s.nodeId) ∧ s.nodeId = id ∧
        node = ⟨id, s.name, s.kind, s.file, s.span.start.line⟩ := by
  rw [get?_nodesOf, Option.map_eq_some_iff]
  constructor
  · rintro ⟨s, hfind, rfl⟩
    obtain ⟨rfl, earlier, later, hsplit, hearlier⟩ := find?_nodeId_eq_some_iff.mp hfind
    exact ⟨earlier, s, later, hsplit, hearlier, rfl, rfl⟩
  · rintro ⟨earlier, s, later, hsplit, hearlier, rfl, rfl⟩
    exact ⟨s, find?_nodeId_eq_some_iff.mpr ⟨rfl, earlier, later, hsplit, hearlier⟩, rfl⟩

/-- There is an edge just for the known names that a callable calls. -/
theorem exists_edge_iff :
    (∃ e ∈ (ofFiles files).edges, e.caller = caller ∧ e.callee = callee) ↔
      Represented files callee ∧ sitesOf files caller callee ≠ [] := by
  constructor
  · rintro ⟨e, he, rfl, rfl⟩
    obtain ⟨hknown, hsites, hsome⟩ := of_mem_edges he
    rw [hsites] at hsome
    exact ⟨mem_knownNames_iff.mp hknown, hsome⟩
  · rintro ⟨hknown, hsites⟩
    obtain ⟨⟨file, r⟩, hplaced, hcalls⟩ := exists_call_of_sites hsites
    exact exists_edge hplaced hcalls (mem_knownNames_iff.mpr hknown)

/-- **The edges of a call graph partition the calls.** Let a call graph be made of any files. Its nodes
are the symbols that are the first to have their identifiers, each with its name, kind, file and line.
No two of its edges have the same ends, and they stand in the order of their first calls. The callable
of an edge is a node and its name is that of a node; the count of an edge is the number of its places,
at least one; and its places are, in order, those of the calls of its name whose innermost callable is
its own. There is an edge for every callable and name just if a node has the name and the callable
calls it, so every call of such a name inside a callable belongs to an edge. -/
theorem ofFiles_edges (files : List FileEntry) :
    let g := ofFiles files
    (∀ id node, g.nodes.get? id = some node ↔
      ∃ earlier s later, files.flatMap FileEntry.symbols = earlier ++ s :: later ∧
        (∀ t ∈ earlier, t.nodeId ≠ s.nodeId) ∧ s.nodeId = id ∧
        node = ⟨id, s.name, s.kind, s.file, s.span.start.line⟩) ∧
      (g.edges.map fun e => (e.caller, e.callee)).Nodup ∧
      (g.edges.Pairwise fun e e' =>
        firstCall files e.caller e.callee < firstCall files e'.caller e'.callee) ∧
      (∀ e ∈ g.edges,
        (∃ node, g.nodes.get? e.caller = some node ∧ node.id = e.caller) ∧
        (∃ node ∈ g.nodes.values, node.name = e.callee) ∧
        e.count = e.sites.length ∧ 1 ≤ e.count ∧
        e.sites = sitesOf files e.caller e.callee) ∧
      ∀ caller callee, (∃ e ∈ g.edges, e.caller = caller ∧ e.callee = callee) ↔
        Represented files callee ∧ sitesOf files caller callee ≠ [] := by
  intro g
  obtain ⟨edges, hedges, hcollects⟩ := exists_collects files
  refine ⟨fun id node => get?_nodesOf_eq_some_iff, ?_, ?_, ?_, fun caller callee => exists_edge_iff⟩
  · rw [show g.edges = edges.values from hedges]
    exact hcollects.ends_nodup
  · rw [show g.edges = edges.values from hedges]
    exact hcollects.values_pairwise
  · intro e he
    have hedge : e ∈ edges.values := hedges ▸ he
    obtain ⟨⟨k, e⟩, hmem, rfl⟩ := List.mem_map.mp hedge
    obtain ⟨-, hknown, hsome, hcount, hsites⟩ := hcollects.edge_eq hmem
    refine ⟨exists_node_of_sites hsome, List.mem_map.mp hknown, hcount, ?_, hsites⟩
    rw [hcount, hsites]
    exact List.length_pos_iff.mpr hsome

section Nested

/-- A call on the only line of the file `a.cs`. -/
def lineCall (name : String) (column : Int) : Reference where
  name := name
  file := "a.cs"
  span := onLine column (column + 1)
  context := ""
  kind := .call

/-- A file with a method `f`, in it a function `h`, and after it a method `g`. Both `f` and `h` call
`g`; a call of something unknown and a call outside of all methods come last. -/
def nestedFile : FileEntry where
  file := "a.cs"
  language := "csharp"
  digest := ""
  symbols := [lineSymbol "f" .method none 0 40, lineSymbol "h" .function none 10 20,
    lineSymbol "g" .method none 45 49]
  references := [lineCall "g" 5, lineCall "g" 12, lineCall "g" 25, lineCall "nothing" 30,
    lineCall "g" 60]

/-- A file with another `g`. -/
def otherFile : FileEntry where
  file := "b.cs"
  language := "csharp"
  digest := ""
  symbols := [{ lineSymbol "g" .function none 0 10 with file := "b.cs" }]

/-- The two calls in `f` make one edge and the one in `h` another; the two last calls make none. -/
theorem ofFiles_edges_nested :
    (ofFiles [nestedFile, otherFile]).edges =
        [⟨"a.cs:f", "g", 2, [⟨"a.cs", 1, 5⟩, ⟨"a.cs", 1, 25⟩]⟩,
          ⟨"a.cs:h", "g", 1, [⟨"a.cs", 1, 12⟩]⟩] ∧
      (ofFiles [nestedFile, otherFile]).nodes.keys = ["a.cs:f", "a.cs:h", "a.cs:g", "b.cs:g"] ∧
      (ofFiles [nestedFile, otherFile]).nodes.get? "b.cs:g" =
        some ⟨"b.cs:g", "g", .function, "b.cs", 1⟩ ∧
      sitesOf [nestedFile, otherFile] "a.cs:f" "nothing" ≠ [] ∧
      ¬ ∃ e ∈ (ofFiles [nestedFile, otherFile]).edges,
        e.caller = "a.cs:f" ∧ e.callee = "nothing" := by
  obtain ⟨hnodes, -, -, -, hedges⟩ := ofFiles_edges [nestedFile, otherFile]
  have hunknown : ¬ Represented [nestedFile, otherFile] "nothing" := by decide
  refine ⟨by decide, by decide, (hnodes _ _).mpr ?_, by decide,
    fun h => hunknown ((hedges _ _).mp h).1⟩
  exact ⟨nestedFile.symbols, _, [], rfl, by decide, rfl, rfl⟩

end Nested

end CallGraph

end Concordance
