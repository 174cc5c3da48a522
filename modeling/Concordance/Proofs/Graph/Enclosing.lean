import Concordance.Proofs.Extract.Span
import Concordance.Proofs.Graph.Counted
import Concordance.Proofs.Tree.Ordered

/-!
# Calls and the callables around them

Of the callables around a point the search takes one that spans the fewest lines, and the later one of
two that span as many. Callables on the same lines are told apart by their order alone: if a callable
comes before those strictly inside it, as in a pass from the front, then none of those around the point
is strictly inside the one found (`innermost_minimal`).

A call is charged to a callable by its start alone, and the end of a callable counts as a point of it.
So a call that follows a callable without a gap is charged to it, although it stands outside.

In a source whose tree is in order this is the one way in which the callable of an edge fails to
enclose a call of the edge (`caller_encloses_iff`); all others need a tree in which a plain name, which
is what a call is of, has declarations below it (`StandsInName`).
-/

namespace Concordance

namespace Span

/-- Another span lies inside this one and leaves out some of it. -/
def StrictlyContains (s other : Span) : Prop :=
  s.contains other = true ∧ other.contains s = false

instance (s other : Span) : Decidable (s.StrictlyContains other) :=
  inferInstanceAs (Decidable (_ ∧ _))

/-- What lies inside a span goes over no more lines. -/
theorem lines_le_of_contains {s other : Span} (h : s.contains other = true) :
    other.lines ≤ s.lines := by
  unfold contains Position.notAfter at h
  simp only [Bool.and_eq_true, Bool.or_eq_true, decide_eq_true_eq, beq_iff_eq] at h
  unfold lines
  omega

end Span

namespace CallGraph

/-! ### No callable inside the innermost one -/

section Minimal

variable {callables : List Symbol} {line column : Int} {s t : Symbol}

/-- Callables of which none comes after one that is strictly inside it. -/
def OuterFirst (callables : List Symbol) : Prop :=
  callables.Pairwise fun s t => ¬ t.span.StrictlyContains s.span

instance (callables : List Symbol) : Decidable (OuterFirst callables) :=
  inferInstanceAs (Decidable (List.Pairwise _ _))

/-- No callable around the point is strictly inside the innermost one. -/
theorem IsInnermost.not_strictlyContains (h : IsInnermost callables line column s)
    (horder : OuterFirst callables) (ht : t ∈ callables)
    (haround : hasPoint t.span line column = true) : ¬ s.span.StrictlyContains t.span := by
  intro hstrict
  have hle := Span.lines_le_of_contains hstrict.1
  obtain ⟨earlier, later, rfl, -, hlater⟩ := h.narrowest
  rcases List.mem_append.mp ht with ht | ht
  · -- an earlier callable would have to come later
    exact (List.pairwise_append.mp horder).2.2 t ht s List.mem_cons_self hstrict
  · rcases List.mem_cons.mp ht with rfl | ht
    · exact absurd hstrict.1 (by rw [hstrict.2]; exact Bool.false_ne_true)
    · have hlt := hlater t ht haround
      omega

/-- **The callable found is an innermost one.** Let some callables be in an order in which each comes
before those strictly inside it. Nothing is found for a point just if the point is in none of them,
their ends included; otherwise a callable around the point is found, and no callable around the point
is strictly inside it, however many of them start and end on the same lines. -/
theorem innermost_minimal (horder : OuterFirst callables) (line column : Int) :
    (innermost callables line column = none ↔
      ∀ t ∈ callables, hasPoint t.span line column = false) ∧
      ((∃ t ∈ callables, hasPoint t.span line column = true) →
        ∃ s ∈ callables, innermost callables line column = some s ∧
          hasPoint s.span line column = true ∧
          ∀ t ∈ callables, hasPoint t.span line column = true →
            ¬ s.span.StrictlyContains t.span) := by
  refine ⟨innermost_eq_none_iff, ?_⟩
  intro hinside
  obtain ⟨t, ht, haround⟩ := hinside
  obtain ⟨s, hs⟩ := exists_isInnermost ht haround
  exact ⟨s, hs.mem, innermost_eq_some_iff.mpr hs, hs.around,
    fun u hu => hs.not_strictlyContains horder hu⟩

/-- Three functions on one line, each but the first inside the one before, and one behind them. -/
def nestedOnLine : List Symbol :=
  [lineSymbol "a" .function none 0 40, lineSymbol "b" .function none 10 30,
    lineSymbol "c" .function none 15 20, lineSymbol "d" .function none 50 60]

/-- On one line, the last of the functions around a point is found, and between them nothing. -/
theorem innermost_minimal_on_line :
    OuterFirst nestedOnLine ∧
      (innermost nestedOnLine 1 20).map Symbol.name = some "c" ∧
      (innermost nestedOnLine 1 30).map Symbol.name = some "b" ∧
      innermost nestedOnLine 1 45 = none ∧
      ∃ s ∈ nestedOnLine, innermost nestedOnLine 1 20 = some s ∧
        hasPoint s.span 1 20 = true ∧
        nestedOnLine.Forall fun t =>
          hasPoint t.span 1 20 = true → ¬ s.span.StrictlyContains t.span := by
  have horder : OuterFirst nestedOnLine := by decide
  obtain ⟨s, hs, hfound, haround, hminimal⟩ := (innermost_minimal horder 1 20).2 (by decide)
  exact ⟨horder, by decide, by decide, by decide, s, hs, hfound, haround,
    List.forall_iff_forall_mem.mpr hminimal⟩

end Minimal

/-! ### Calls inside and outside -/

open Extract

variable {ctx : Context} {t : Tree} {s : Symbol} {r : Reference}

/-- A symbol stands in the name that is called: it spans a tree below the name, and the name goes on
behind it. -/
def StandsInName (ctx : Context) (t : Tree) (s : Symbol) (r : Reference) : Prop :=
  ∃ name ∈ t.preorder, name.isIdentifier = true ∧ r.span = ctx.span name ∧
    ∃ whole ∈ name.preorder, s.span = ctx.span whole ∧ whole.stop < name.stop

/-- A tree with a text is not empty. -/
theorem start_lt_stop_of_text {name : Tree} (h : ctx.text name ≠ "") : name.start < name.stop := by
  by_contra hle
  apply h
  have hslice : Source.slice ctx.source name.start name.stop = [] := by
    rw [Source.slice, Nat.sub_eq_zero_of_le (Nat.le_of_not_lt hle), List.take_zero]
  unfold Context.text Source.textOf Source.textBetween
  rw [hslice]
  rfl

/-- Nodes with the same span have the same bytes. -/
theorem span_inj {u v : Tree} (h : ctx.span u = ctx.span v) : u.start = v.start ∧ u.stop = v.stop :=
  ⟨Position.inSource_inj.mp (congrArg Span.start h), Position.inSource_inj.mp (congrArg Span.stop h)⟩

/-- Whether a tree has the point at which another one starts. -/
theorem hasPoint_start_iff {whole name : Tree} (hwhole : whole.Nested ctx.source.length)
    (hname : name.Nested ctx.source.length) :
    hasPoint (ctx.span whole) (ctx.span name).start.line (ctx.span name).start.column = true ↔
      whole.start ≤ name.start ∧ name.start ≤ whole.stop := by
  obtain ⟨hle, hlimit, -⟩ := hwhole whole whole.self_mem_preorder
  obtain ⟨hle', hlimit', -⟩ := hname name name.self_mem_preorder
  rw [hasPoint, Bool.and_eq_true]
  exact and_congr (Position.notAfter_inSource_iff (by omega) (by omega))
    (Position.notAfter_inSource_iff (by omega) hlimit)

/-- **A symbol around the start of a call** encloses the call, unless it ends there or stands in the
called name. -/
theorem contains_iff_of_hasPoint (htree : t.Ordered ctx.source.length) (hs : DeclaredIn ctx t s)
    (hr : CalledIn ctx t r)
    (haround : hasPoint s.span r.span.start.line r.span.start.column = true) :
    s.span.contains r.span = true ↔ r.span.start ≠ s.span.stop ∧ ¬ StandsInName ctx t s r := by
  obtain ⟨whole, hwhole, _, -, hstands⟩ := hs
  obtain ⟨name, hname, hplain, htext, hcall⟩ := hr
  have hspan : s.span = ctx.span whole := hstands.span
  have hspan' : r.span = ctx.span name := congrArg Reference.span hcall
  have hlt := start_lt_stop_of_text htext
  have hnested := htree.nested.below hwhole
  have hnested' := htree.nested.below hname
  have hcontains : s.span.contains r.span = true ↔
      whole.start ≤ name.start ∧ name.stop ≤ whole.stop := by
    rw [hspan, hspan']
    exact Span.contains_ofTree_iff hnested hnested'
  have htouches : r.span.start = s.span.stop ↔ name.start = whole.stop := by
    rw [hspan, hspan']
    exact Position.inSource_inj
  rw [hspan, hspan'] at haround
  obtain ⟨hstart, hstop⟩ := (hasPoint_start_iff hnested hnested').mp haround
  rw [hcontains, Ne, htouches]
  constructor
  · rintro ⟨-, hend⟩
    refine ⟨by omega, ?_⟩
    rintro ⟨name', -, -, hname', whole', -, hwhole', hbeyond⟩
    obtain ⟨-, hsame⟩ := span_inj (hspan'.symm.trans hname')
    obtain ⟨-, hsame'⟩ := span_inj (hspan.symm.trans hwhole')
    omega
  · rintro ⟨htouch, hin⟩
    refine ⟨hstart, ?_⟩
    rcases htree.below_or_apart hname hwhole with hbelow | hbelow | hends | hends
    · exact (hnested.inside hbelow).2
    · by_contra hbeyond
      exact hin ⟨name, hname, hplain, hspan', whole, hbelow, hspan, Nat.lt_of_not_le hbeyond⟩
    · omega
    · omega

/-- The places of the calls of one file. -/
theorem sitesAmong_single (file : FileEntry) (caller callee : String) :
    sitesAmong (placedReferences [file]) caller callee =
      (file.references.filter fun r => Calls file r caller callee).map siteOf := by
  rw [sitesAmong, callsAmong, placedReferences, List.flatMap_singleton, List.filter_map,
    List.map_map]
  rfl

/-- **The callable of an edge encloses the calls of the edge, except those that start where it
ends.** Let a file be read off a tree whose spans are nested and in order, in any family. The places of
an edge of its call graph are those of its calls, and each of these is charged to the innermost
callable around its start. That callable encloses the call if and only if the call does not start where
the callable ends and the callable does not stand in the called name itself. On the other hand every
call of a known name is charged to the innermost callable around its start, its end included. -/
theorem caller_encloses_iff {x : Extraction} {file : FileEntry}
    (htree : t.Ordered ctx.source.length) (hread : extract ctx t = .ok x)
    (hsymbols : file.symbols = x.symbols) (hreferences : file.references = x.references) :
    (∀ e ∈ (ofFiles [file]).edges,
      e.sites = (file.references.filter fun r => Calls file r e.caller e.callee).map siteOf ∧
        ∀ r ∈ file.references, Calls file r e.caller e.callee →
          ∃ s, IsInnermost (callablesOf file) r.span.start.line r.span.start.column s ∧
            s.nodeId = e.caller ∧
            (s.span.contains r.span = true ↔
              r.span.start ≠ s.span.stop ∧ ¬ StandsInName ctx t s r)) ∧
      ∀ r ∈ file.references, r.kind = .call → Represented [file] r.name →
        ∀ s, IsInnermost (callablesOf file) r.span.start.line r.span.start.column s →
          ∃ e ∈ (ofFiles [file]).edges, e.caller = s.nodeId ∧ e.callee = r.name := by
  refine ⟨fun e he => ⟨?_, fun r hr hcalls => ?_⟩, fun r hr hcall hname s hs => ?_⟩
  · rw [(of_mem_edges he).2.1, sitesAmong_single]
  · obtain ⟨s, hinnermost, hid⟩ := hcalls.caller
    have hmem : s ∈ x.symbols := hsymbols ▸ List.mem_of_mem_filter hinnermost.mem
    have hdeclared := declaredIn_of_mem_extract hread hmem
    have hcalled := calledIn_of_mem_extract hread (hreferences ▸ hr) hcalls.isCall
    exact ⟨s, hinnermost, hid, contains_iff_of_hasPoint htree hdeclared hcalled hinnermost.around⟩
  · have hplaced : (file, r) ∈ placedReferences [file] := by
      rw [placedReferences, List.flatMap_singleton]
      exact List.mem_map_of_mem hr
    exact exists_edge hplaced ⟨hcall, rfl, s, hs, rfl⟩ (mem_knownNames_iff.mpr hname)

section Touching

/-- The source of two functions and a call right behind the second one. -/
def touchingSource : Bytes := Utf8.bytes "function g(){f()}function f(){}f()"

/-- The tree of a call of the name that starts at a byte. -/
def callAt (start : Nat) : Tree :=
  spanned "expression_statement" start (start + 3) none
    [spanned "call_expression" start (start + 3) none
      [spanned "identifier" start (start + 1) (some "function") [],
       spanned "arguments" (start + 1) (start + 3) (some "arguments") []]]

/-- The tree of a function with a name of one byte that starts at a byte. -/
def functionAt (start stop : Nat) (statements : List Tree) : Tree :=
  spanned "function_declaration" start stop none
    [spanned "identifier" (start + 9) (start + 10) (some "name") [],
     spanned "formal_parameters" (start + 10) (start + 12) (some "parameters") [],
     spanned "statement_block" (start + 12) stop (some "body") statements]

/-- The tree of the source. -/
def touchingTree : Tree :=
  spanned "program" 0 34 none [functionAt 0 17 [callAt 13], functionAt 17 31 [], callAt 31]

/-- What is known of the source. -/
def touchingContext : Context where
  source := touchingSource
  file := "a.js"
  language := "javascript"
  family := .ecmascript

/-- What is read off the source. -/
def touchingExtraction : Extraction :=
  (extract touchingContext touchingTree).toOption.getD {}

/-- The file of the source. -/
def touchingFile : FileEntry where
  file := "a.js"
  language := "javascript"
  digest := ""
  symbols := touchingExtraction.symbols
  references := touchingExtraction.references

theorem extract_touching : extract touchingContext touchingTree = .ok touchingExtraction := by
  decide +kernel

/-- The call in `g` is charged to `g`, and that behind `f` to `f`, which does not enclose it. -/
theorem caller_encloses_iff_touching :
    ((ofFiles [touchingFile]).edges.map fun e => (e.caller, e.callee, e.sites)) =
        [("a.js:g", "f", [⟨"a.js", 1, 13⟩]), ("a.js:f", "f", [⟨"a.js", 1, 31⟩])] ∧
      (∃ r ∈ touchingFile.references, Calls touchingFile r "a.js:f" "f" ∧
        ∃ s ∈ touchingFile.symbols, s.nodeId = "a.js:f" ∧ r.span.start = s.span.stop ∧
          s.span.contains r.span = false) ∧
      ∀ e ∈ (ofFiles [touchingFile]).edges, ∀ r ∈ touchingFile.references,
        Calls touchingFile r e.caller e.callee →
          ∃ s, IsInnermost (callablesOf touchingFile) r.span.start.line r.span.start.column s ∧
            s.nodeId = e.caller ∧
            (s.span.contains r.span = true ↔
              r.span.start ≠ s.span.stop ∧ ¬ StandsInName touchingContext touchingTree s r) := by
  have htree : touchingTree.Ordered touchingContext.source.length := by decide +kernel
  obtain ⟨hedges, -⟩ := caller_encloses_iff htree extract_touching
    (show touchingFile.symbols = _ from rfl) (show touchingFile.references = _ from rfl)
  exact ⟨by decide +kernel, by decide +kernel, fun e he => (hedges e he).2⟩

end Touching

end CallGraph

end Concordance
