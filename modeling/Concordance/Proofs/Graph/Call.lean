import Concordance.Graph.Call
import Concordance.Proofs.Roster
import Mathlib.Data.List.Induction

/-!
# Calls and their edges

A call belongs to the innermost callable around it in its file. This is said here without the search
for it (`IsInnermost`), and with it which callable calls which name where (`Calls`).

Edges are made while the references of all files are gone through. After any number of references the
edges collect them exactly: there is an edge for each pair of a callable and a known name that it has
called so far, it has the places of all these calls, and the edges stand in the order of their first
calls (`Collects`). One more reference keeps this (`Collects.skip`, `Collects.add`), and so do all of
them (`collects_foldl`).
-/

namespace Concordance.CallGraph

/-! ### The innermost callable -/

/-- Of some callables the innermost one around a point: no other one around the point spans fewer
lines, and none that comes later spans as few. -/
structure IsInnermost (callables : List Symbol) (line column : Int) (s : Symbol) : Prop where
  around : hasPoint s.span line column = true
  narrowest : ∃ earlier later, callables = earlier ++ s :: later ∧
    (∀ t ∈ earlier, hasPoint t.span line column = true → s.span.lines ≤ t.span.lines) ∧
    ∀ t ∈ later, hasPoint t.span line column = true → s.span.lines < t.span.lines

variable {callables : List Symbol} {line column : Int} {s t : Symbol}

theorem IsInnermost.mem (h : IsInnermost callables line column s) : s ∈ callables := by
  obtain ⟨earlier, later, rfl, -⟩ := h.narrowest
  exact List.mem_append_right _ List.mem_cons_self

/-- No callable around the point spans fewer lines. -/
theorem IsInnermost.lines_le (h : IsInnermost callables line column s) (ht : t ∈ callables)
    (haround : hasPoint t.span line column = true) : s.span.lines ≤ t.span.lines := by
  obtain ⟨earlier, later, rfl, hearlier, hlater⟩ := h.narrowest
  rcases List.mem_append.mp ht with ht | ht
  · exact hearlier t ht haround
  · rcases List.mem_cons.mp ht with rfl | ht
    · exact Int.le_refl _
    · exact Int.le_of_lt (hlater t ht haround)

/-- A point has at most one innermost callable. -/
theorem IsInnermost.unique (hs : IsInnermost callables line column s)
    (ht : IsInnermost callables line column t) : s = t := by
  obtain ⟨earlier, later, rfl, hearlier, hlater⟩ := hs.narrowest
  obtain ⟨earlier', later', heq, hearlier', hlater'⟩ := ht.narrowest
  -- the one that comes first spans fewer lines, the other one no more
  rcases List.append_eq_append_iff.mp heq with ⟨between, rfl, hrest⟩ | ⟨between, rfl, hrest⟩
  · cases between with
    | nil => exact (List.cons.inj hrest).1
    | cons first between =>
        obtain ⟨rfl, rfl⟩ := List.cons.inj hrest
        have hlt := hlater t (by simp) ht.around
        have hle := hearlier' s (by simp) hs.around
        omega
  · cases between with
    | nil => exact (List.cons.inj hrest).1.symm
    | cons first between =>
        obtain ⟨rfl, rfl⟩ := List.cons.inj hrest
        have hlt := hlater' s (by simp) hs.around
        have hle := hearlier t (by simp) ht.around
        omega

/-- What becomes of the best callable so far when one more is looked at. -/
theorem narrower_cases (line column : Int) (best : Option Symbol) (s : Symbol) :
    (hasPoint s.span line column = false ∧ narrower line column best s = best) ∨
      (hasPoint s.span line column = true ∧ (∀ b ∈ best, s.span.lines ≤ b.span.lines) ∧
        narrower line column best s = some s) ∨
      hasPoint s.span line column = true ∧
        ∃ b, best = some b ∧ b.span.lines < s.span.lines ∧ narrower line column best s = some b := by
  unfold narrower
  by_cases haround : hasPoint s.span line column = true
  · rw [if_pos haround]
    cases best with
    | none => simp [haround]
    | some b =>
        by_cases hle : s.span.lines ≤ b.span.lines
        · simp [haround, hle]
        · simp [haround, hle, Int.not_le.mp hle]
  · rw [if_neg haround]
    exact .inl ⟨by simpa using haround, rfl⟩

/-- **What the search finds.** It is the innermost callable around the point; nothing is found if there
is no callable around it. -/
theorem innermost_spec (callables : List Symbol) (line column : Int) :
    match innermost callables line column with
    | none => ∀ t ∈ callables, hasPoint t.span line column = false
    | some s => IsInnermost callables line column s := by
  induction callables using List.reverseRecOn with
  | nil => exact fun t ht => absurd ht List.not_mem_nil
  | append_singleton callables s ih =>
      have hlast : innermost (callables ++ [s]) line column =
          narrower line column (innermost callables line column) s := by
        rw [innermost, List.foldl_append]
        rfl
      rw [hlast]
      rcases narrower_cases line column (innermost callables line column) s with
        ⟨houtside, hkept⟩ | ⟨haround, hle, htaken⟩ | ⟨haround, b, hbest, hlt, hkept⟩
      · rw [hkept]
        cases hbest : innermost callables line column with
        | none =>
            rw [hbest] at ih
            intro t ht
            rcases List.mem_append.mp ht with ht | ht
            · exact ih t ht
            · rw [List.mem_singleton.mp ht]
              exact houtside
        | some b =>
            rw [hbest] at ih
            obtain ⟨earlier, later, rfl, hearlier, hlater⟩ := ih.narrowest
            refine ⟨ih.around, earlier, later ++ [s], by simp, hearlier, ?_⟩
            intro t ht haround
            rcases List.mem_append.mp ht with ht | ht
            · exact hlater t ht haround
            · rw [List.mem_singleton.mp ht, houtside] at haround
              cases haround
      · rw [htaken]
        refine ⟨haround, callables, [], rfl, ?_, by simp⟩
        intro t ht htaround
        cases hbest : innermost callables line column with
        | none =>
            rw [hbest] at ih
            rw [ih t ht] at htaround
            cases htaround
        | some b =>
            rw [hbest] at ih
            exact Int.le_trans (hle b hbest) (ih.lines_le ht htaround)
      · rw [hbest] at ih
        rw [hkept]
        obtain ⟨earlier, later, rfl, hearlier, hlater⟩ := ih.narrowest
        refine ⟨ih.around, earlier, later ++ [s], by simp, hearlier, ?_⟩
        intro t ht htaround
        rcases List.mem_append.mp ht with ht | ht
        · exact hlater t ht htaround
        · rw [List.mem_singleton.mp ht]
          exact hlt

/-- There is no innermost function at a point if none has the point. -/
theorem innermost_eq_none_iff :
    innermost callables line column = none ↔
      ∀ t ∈ callables, hasPoint t.span line column = false := by
  have hspec := innermost_spec callables line column
  cases hfound : innermost callables line column with
  | none =>
      rw [hfound] at hspec
      exact iff_of_true rfl hspec
  | some s =>
      rw [hfound] at hspec
      refine iff_of_false (by simp) fun hnone => ?_
      have houtside := hnone s hspec.mem
      rw [hspec.around] at houtside
      cases houtside

/-- The function found at a point is the innermost one there. -/
theorem innermost_eq_some_iff :
    innermost callables line column = some s ↔ IsInnermost callables line column s := by
  have hspec := innermost_spec callables line column
  constructor
  · intro h
    rw [h] at hspec
    exact hspec
  · intro h
    cases hfound : innermost callables line column with
    | none =>
        have houtside := innermost_eq_none_iff.mp hfound s h.mem
        rw [h.around] at houtside
        cases houtside
    | some t =>
        rw [hfound] at hspec
        rw [hspec.unique h]

/-- A point in a callable has an innermost callable. -/
theorem exists_isInnermost (ht : t ∈ callables) (haround : hasPoint t.span line column = true) :
    ∃ s, IsInnermost callables line column s := by
  cases hfound : innermost callables line column with
  | none =>
      rw [innermost_eq_none_iff.mp hfound t ht] at haround
      cases haround
  | some s => exact ⟨s, innermost_eq_some_iff.mp hfound⟩

/-! ### Calls -/

/-- A reference in a file is a call of a name by a callable, which is given by its node. -/
structure Calls (file : FileEntry) (r : Reference) (caller callee : String) : Prop where
  isCall : r.kind = .call
  callee : r.name = callee
  caller : ∃ s, IsInnermost (callablesOf file) r.span.start.line r.span.start.column s ∧
    s.nodeId = caller

/-- The calls are found by the search for the innermost callable. -/
theorem calls_iff {file : FileEntry} {r : Reference} {caller callee : String} :
    Calls file r caller callee ↔ r.kind = .call ∧ r.name = callee ∧
      (innermost (callablesOf file) r.span.start.line r.span.start.column).map Symbol.nodeId =
        some caller := by
  rw [Option.map_eq_some_iff]
  simp only [innermost_eq_some_iff]
  exact ⟨fun h => ⟨h.isCall, h.callee, h.caller⟩, fun h => ⟨h.1, h.2.1, h.2.2⟩⟩

instance (file : FileEntry) (r : Reference) (caller callee : String) :
    Decidable (Calls file r caller callee) :=
  decidable_of_iff _ calls_iff.symm

/-- The place of a call. -/
def siteOf (r : Reference) : CallSite :=
  ⟨r.file, r.span.start.line, r.span.start.column⟩

/-- A reference that belongs to an edge is a call of a known name, and is listed with its place. -/
theorem attribute?_eq_some_iff {known : List String} {file : FileEntry} {r : Reference}
    {a : Attributed} :
    attribute? known (callablesOf file) r = some a ↔
      a.callee ∈ known ∧ Calls file r a.caller a.callee ∧ a.site = siteOf r := by
  obtain ⟨caller, callee, site⟩ := a
  rw [calls_iff, Option.map_eq_some_iff]
  unfold attribute?
  dsimp only
  split
  · next hkept =>
    simp only [Bool.and_eq_true, decide_eq_true_eq, List.contains_iff_mem] at hkept
    rw [Option.map_eq_some_iff]
    constructor
    · rintro ⟨s, hs, heq⟩
      cases heq
      exact ⟨hkept.2, ⟨hkept.1, rfl, s, hs, rfl⟩, rfl⟩
    · rintro ⟨-, ⟨-, rfl, s, hs, rfl⟩, rfl⟩
      exact ⟨s, hs, rfl⟩
  · next hkept =>
    simp only [Bool.and_eq_true, decide_eq_true_eq, List.contains_iff_mem] at hkept
    constructor
    · intro h
      cases h
    · rintro ⟨hknown, ⟨hcall, rfl, -⟩, -⟩
      exact absurd ⟨hcall, hknown⟩ hkept

/-- A reference is a call of one name by one callable. -/
theorem Calls.unique {file : FileEntry} {r : Reference} {caller callee caller' callee' : String}
    (h : Calls file r caller callee) (h' : Calls file r caller' callee') :
    (caller, callee) = (caller', callee') := by
  obtain ⟨-, rfl, s, hs, rfl⟩ := h
  obtain ⟨-, rfl, t, ht, rfl⟩ := h'
  rw [hs.unique ht]

/-! ### Going through the references -/

/-- The references of some files, each with its file, in order. -/
def placedReferences (files : List FileEntry) : List (FileEntry × Reference) :=
  files.flatMap fun file => file.references.map fun r => (file, r)

/-- Those of some references that are calls of a name by a callable. -/
def callsAmong (placed : List (FileEntry × Reference)) (caller callee : String) :
    List (FileEntry × Reference) :=
  placed.filter fun p => Calls p.1 p.2 caller callee

/-- The places of such calls. -/
def sitesAmong (placed : List (FileEntry × Reference)) (caller callee : String) : List CallSite :=
  (callsAmong placed caller callee).map fun p => siteOf p.2

/-- How many references come before the first such call. -/
def firstAmong (placed : List (FileEntry × Reference)) (caller callee : String) : Nat :=
  placed.findIdx fun p => Calls p.1 p.2 caller callee

/-- The edge of the calls of a name by a callable, if there are any and the name is known. -/
def edgeAmong (known : List String) (placed : List (FileEntry × Reference)) (caller callee : String) :
    Option CallEdge :=
  if callee ∈ known ∧ sitesAmong placed caller callee ≠ [] then
    some ⟨caller, callee, (sitesAmong placed caller callee).length, sitesAmong placed caller callee⟩
  else none

/-- Some edges are those of the calls among some references, in the order of the first calls. -/
structure Collects (known : List String) (placed : List (FileEntry × Reference))
    (edges : Roster (String × String) CallEdge) : Prop where
  get : ∀ caller callee, edges.get? (caller, callee) = edgeAmong known placed caller callee
  order : edges.keys.Pairwise fun k k' =>
    firstAmong placed k.1 k.2 < firstAmong placed k'.1 k'.2

variable {known : List String} {placed : List (FileEntry × Reference)}
  {edges : Roster (String × String) CallEdge} {caller callee : String}

/-- One more reference adds its site if it calls one from the other. -/
theorem sitesAmong_concat (p : FileEntry × Reference) :
    sitesAmong (placed ++ [p]) caller callee =
      sitesAmong placed caller callee ++
        if Calls p.1 p.2 caller callee then [siteOf p.2] else [] := by
  rw [sitesAmong, callsAmong, List.filter_append, List.map_append, List.filter_singleton]
  by_cases h : Calls p.1 p.2 caller callee
  · simp [h, sitesAmong, callsAmong]
  · simp [h, sitesAmong, callsAmong]

/-- Where there are sites there is a call. -/
theorem exists_call_of_sites (h : sitesAmong placed caller callee ≠ []) :
    ∃ p ∈ placed, Calls p.1 p.2 caller callee := by
  obtain ⟨p, hp⟩ := List.exists_mem_of_ne_nil _ (List.map_eq_nil_iff.not.mp h)
  rw [callsAmong, List.mem_filter, decide_eq_true_eq] at hp
  exact ⟨p, hp⟩

/-- The first of some calls stays the first when more references follow. -/
theorem firstAmong_concat (hsites : sitesAmong placed caller callee ≠ [])
    (p : FileEntry × Reference) :
    firstAmong (placed ++ [p]) caller callee = firstAmong placed caller callee ∧
      firstAmong placed caller callee < placed.length := by
  obtain ⟨q, hq, hcalls⟩ := exists_call_of_sites hsites
  have hlt : firstAmong placed caller callee < placed.length :=
    List.findIdx_lt_length_of_exists ⟨q, hq, decide_eq_true hcalls⟩
  refine ⟨?_, hlt⟩
  unfold firstAmong at hlt ⊢
  rw [List.findIdx_append, if_pos hlt]

/-- An edge has its key, a known name, and calls. -/
theorem Collects.of_mem_keys (h : Collects known placed edges) {k : String × String}
    (hk : k ∈ edges.keys) : k.2 ∈ known ∧ sitesAmong placed k.1 k.2 ≠ [] := by
  obtain ⟨e, he⟩ := Roster.mem_keys_iff.mp hk
  rw [h.get, edgeAmong] at he
  split at he
  · next hcalls => exact hcalls
  · cases he

/-- The order of the edges is not changed by one more reference. -/
theorem Collects.order_concat (h : Collects known placed edges) (p : FileEntry × Reference) :
    edges.keys.Pairwise fun k k' =>
      firstAmong (placed ++ [p]) k.1 k.2 < firstAmong (placed ++ [p]) k'.1 k'.2 := by
  refine h.order.imp_of_mem fun {k k'} hk hk' hlt => ?_
  rw [(firstAmong_concat (h.of_mem_keys hk).2 p).1, (firstAmong_concat (h.of_mem_keys hk').2 p).1]
  exact hlt

/-- A reference that belongs to no edge. -/
theorem Collects.skip (h : Collects known placed edges) {p : FileEntry × Reference}
    (hnone : attribute? known (callablesOf p.1) p.2 = none) :
    Collects known (placed ++ [p]) edges := by
  refine ⟨fun caller callee => ?_, h.order_concat p⟩
  rw [h.get, edgeAmong, edgeAmong]
  by_cases hknown : callee ∈ known
  · have hcalls : ¬ Calls p.1 p.2 caller callee := by
      intro hcalls
      have hsome : attribute? known (callablesOf p.1) p.2 = some ⟨caller, callee, siteOf p.2⟩ :=
        attribute?_eq_some_iff.mpr ⟨hknown, hcalls, rfl⟩
      rw [hnone] at hsome
      cases hsome
    rw [sitesAmong_concat, if_neg hcalls, List.append_nil]
  · rw [if_neg fun hc => hknown hc.1, if_neg fun hc => hknown hc.1]

/-- The edge to which one more call is added, which may be a new one. -/
theorem getD_edgeAmong (hknown : callee ∈ known) :
    (edgeAmong known placed caller callee).getD { caller, callee } =
      ⟨caller, callee, (sitesAmong placed caller callee).length,
        sitesAmong placed caller callee⟩ := by
  unfold edgeAmong
  by_cases hsites : sitesAmong placed caller callee = []
  · rw [if_neg fun hc => hc.2 hsites, hsites]
    rfl
  · rw [if_pos ⟨hknown, hsites⟩]
    rfl

/-- A reference that belongs to an edge. -/
theorem Collects.add (h : Collects known placed edges) {p : FileEntry × Reference} {a : Attributed}
    (hsome : attribute? known (callablesOf p.1) p.2 = some a) :
    Collects known (placed ++ [p]) (addCall edges a) := by
  obtain ⟨hknown, hcalls, hsite⟩ := attribute?_eq_some_iff.mp hsome
  have hsites : sitesAmong (placed ++ [p]) a.caller a.callee =
      sitesAmong placed a.caller a.callee ++ [a.site] := by
    rw [sitesAmong_concat, if_pos hcalls, hsite]
  unfold addCall Roster.alter
  dsimp only
  rw [h.get, getD_edgeAmong hknown]
  refine ⟨fun caller callee => ?_, ?_⟩
  · rw [Roster.get?_put]
    split
    · next hkey =>
      cases hkey
      rw [edgeAmong, hsites, if_pos ⟨hknown, by simp⟩, List.length_append]
      rfl
    · next hkey =>
      have hother : ¬ Calls p.1 p.2 caller callee := fun hc => hkey (hc.unique hcalls)
      rw [h.get, edgeAmong, edgeAmong, sitesAmong_concat, if_neg hother, List.append_nil]
  · rw [Roster.keys_put]
    split
    · exact h.order_concat p
    · next hkey =>
      -- a new edge has its first call now, after those of all others
      have hnone : sitesAmong placed a.caller a.callee = [] := by
        by_contra hne
        apply hkey
        rw [Roster.mem_keys_iff, h.get, edgeAmong, if_pos ⟨hknown, hne⟩]
        exact ⟨_, rfl⟩
      have hfirst : firstAmong (placed ++ [p]) a.caller a.callee = placed.length := by
        have habsent : ∀ q ∈ placed, ¬ Calls q.1 q.2 a.caller a.callee := by
          simpa [sitesAmong, callsAmong] using hnone
        have hlength : placed.findIdx (fun q => Calls q.1 q.2 a.caller a.callee) = placed.length :=
          List.findIdx_eq_length.mpr fun q hq => decide_eq_false (habsent q hq)
        rw [firstAmong, List.findIdx_append, hlength, if_neg (Nat.lt_irrefl _), List.findIdx_singleton]
        simp [hcalls]
      refine List.pairwise_append.mpr ⟨h.order_concat p, List.pairwise_singleton _ _, ?_⟩
      intro k hk k' hk'
      rw [List.mem_singleton.mp hk', hfirst]
      obtain ⟨hsame, hlt⟩ := firstAmong_concat (h.of_mem_keys hk).2 p
      rw [hsame]
      exact hlt

/-- **All references.** -/
theorem collects_foldl (known : List String) (placed : List (FileEntry × Reference)) :
    Collects known placed
      ((placed.filterMap fun p => attribute? known (callablesOf p.1) p.2).foldl addCall .empty) := by
  induction placed using List.reverseRecOn with
  | nil =>
      refine ⟨fun caller callee => ?_, List.Pairwise.nil⟩
      rw [edgeAmong, if_neg fun hc => hc.2 rfl]
      rfl
  | append_singleton placed p ih =>
      rw [List.filterMap_append, List.foldl_append, List.filterMap_cons]
      cases hatt : attribute? known (callablesOf p.1) p.2 with
      | none => exact ih.skip hatt
      | some a => exact ih.add hatt

/-- An edge collects the calls of the name that it leads to by the callable that it comes from. -/
theorem Collects.edge_eq (h : Collects known placed edges) {k : String × String} {e : CallEdge}
    (hmem : (k, e) ∈ edges.entries) :
    k = (e.caller, e.callee) ∧ e.callee ∈ known ∧ sitesAmong placed e.caller e.callee ≠ [] ∧
      e.count = e.sites.length ∧ e.sites = sitesAmong placed e.caller e.callee := by
  have hget := Roster.get?_eq_some_iff.mpr hmem
  rw [h.get, edgeAmong] at hget
  split at hget
  · next hcalls =>
    cases hget
    exact ⟨rfl, hcalls.1, hcalls.2, rfl, rfl⟩
  · cases hget

/-- The edges stand in the order of their first calls. -/
theorem Collects.values_pairwise (h : Collects known placed edges) :
    edges.values.Pairwise fun e e' =>
      firstAmong placed e.caller e.callee < firstAmong placed e'.caller e'.callee := by
  have horder := h.order
  rw [Roster.keys, List.pairwise_map] at horder
  rw [Roster.values, List.pairwise_map]
  refine horder.imp_of_mem fun {a b} ha hb hlt => ?_
  obtain ⟨k, e⟩ := a
  obtain ⟨k', e'⟩ := b
  obtain ⟨rfl, -⟩ := h.edge_eq ha
  obtain ⟨rfl, -⟩ := h.edge_eq hb
  exact hlt

/-- No two edges have the same ends. -/
theorem Collects.ends_nodup (h : Collects known placed edges) :
    (edges.values.map fun e => (e.caller, e.callee)).Nodup := by
  rw [List.Nodup, List.pairwise_map]
  refine h.values_pairwise.imp fun {e e'} hlt heq => ?_
  obtain ⟨hcaller, hcallee⟩ := Prod.mk.inj heq
  rw [hcaller, hcallee] at hlt
  exact Nat.lt_irrefl _ hlt

/-- The attributed calls of all files are those among the references of all files. -/
theorem flatMap_attributedOf (known : List String) (files : List FileEntry) :
    files.flatMap (attributedOf known) =
      (placedReferences files).filterMap fun p => attribute? known (callablesOf p.1) p.2 := by
  rw [placedReferences, List.filterMap_flatMap]
  simp only [List.filterMap_map]
  rfl

/-! ### The nodes -/

/-- **The nodes.** An identifier stands for the first symbol that has it. -/
theorem get?_nodesOf (files : List FileEntry) (id : String) :
    (nodesOf files).get? id =
      ((files.flatMap FileEntry.symbols).find? fun s => s.nodeId = id).map nodeOf := by
  unfold nodesOf
  induction files.flatMap FileEntry.symbols using List.reverseRecOn with
  | nil => rfl
  | append_singleton symbols s ih =>
      rw [List.foldl_append, List.foldl_cons, List.foldl_nil, Roster.get?_putNew, ih,
        List.find?_append, Option.map_or]
      by_cases hid : s.nodeId = id
      · simp [hid]
      · simp [hid, Ne.symm hid]

/-- Every symbol of a file has a node under its id. -/
theorem exists_node_of_symbol {files : List FileEntry} {file : FileEntry} (hfile : file ∈ files)
    {s : Symbol} (hs : s ∈ file.symbols) :
    ∃ node, (nodesOf files).get? s.nodeId = some node ∧ node.id = s.nodeId := by
  have hmem : s ∈ files.flatMap FileEntry.symbols := List.mem_flatMap.mpr ⟨file, hfile, hs⟩
  rw [get?_nodesOf]
  cases hfind : (files.flatMap FileEntry.symbols).find? fun t => t.nodeId = s.nodeId with
  | none => simpa using List.find?_eq_none.mp hfind s hmem
  | some t =>
      have hid : t.nodeId = s.nodeId := by simpa using List.find?_some hfind
      exact ⟨nodeOf t, rfl, hid⟩

/-- A callable that calls a name somewhere is a node. -/
theorem exists_node_of_sites {files : List FileEntry}
    (hsites : sitesAmong (placedReferences files) caller callee ≠ []) :
    ∃ node, (nodesOf files).get? caller = some node ∧ node.id = caller := by
  -- the callable of the first call is a symbol of its file
  obtain ⟨⟨file, r⟩, hplaced, hcalls⟩ := exists_call_of_sites hsites
  obtain ⟨file, hfile, href⟩ := List.mem_flatMap.mp hplaced
  obtain ⟨r, -, heq⟩ := List.mem_map.mp href
  cases heq
  obtain ⟨s, hs, rfl⟩ := hcalls.caller
  exact exists_node_of_symbol hfile (List.mem_of_mem_filter hs.mem)

/-! ### The edges of a call graph -/

/-- The places where a callable calls a name, in the order of the files and of their references. -/
def sitesOf (files : List FileEntry) (caller callee : String) : List CallSite :=
  sitesAmong (placedReferences files) caller callee

/-- How many references of the files come before the first call of a name by a callable. -/
def firstCall (files : List FileEntry) (caller callee : String) : Nat :=
  firstAmong (placedReferences files) caller callee

end Concordance.CallGraph
