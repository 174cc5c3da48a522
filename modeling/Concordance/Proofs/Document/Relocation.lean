import Concordance.Document.Basic
import Concordance.Proofs.Document.Element
import Concordance.Proofs.Document.Place
import Concordance.Proofs.Document.Setup
import Concordance.Proofs.Extract.Span

/-!
# Scripts at their place

A script of a document is read on its own, and what was read is moved to the document by lines,
columns and bytes. The move is exact: a position of the script goes to the position of the same byte
of the document (`Region.shift_inSource`), whether it is on the first line of the script, behind the
opening tag, or on a later one. Every span of a record comes from a tree of the script, so the records
of a document are those of its scripts with each span covering the same bytes at their place
(`relocation_exact`). Only the setup script of a Vue component has more than that: the symbols that its
macros declare.
-/

namespace Concordance

/-- Every tree of a tree starts and ends before the limit. -/
def Tree.Within (limit : Nat) (t : Tree) : Prop :=
  ∀ u ∈ t.preorder, u.start ≤ limit ∧ u.stop ≤ limit

instance (limit : Nat) (t : Tree) : Decidable (t.Within limit) :=
  inferInstanceAs (Decidable (∀ u ∈ t.preorder, _))

/-- The span of the same bytes in a document in which the source stands at an offset. -/
def Span.placedIn (document : Bytes) (offset : Nat) (s : Span) : Span :=
  ⟨.inSource document (offset + s.start.byteOffset.toNat),
    .inSource document (offset + s.stop.byteOffset.toNat)⟩

/-- The same records with spans of the same bytes in a document. -/
def Extraction.placedIn (document : Bytes) (offset : Nat) (e : Extraction) : Extraction where
  symbols := e.symbols.map fun s =>
    { s with span := s.span.placedIn document offset
             nameSpan := s.nameSpan.placedIn document offset }
  imports := e.imports.map fun i => { i with span := i.span.placedIn document offset }
  exports := e.exports.map fun x => { x with span := x.span.placedIn document offset }
  references := e.references.map fun u => { u with span := u.span.placedIn document offset }

namespace Document

namespace Region

/-- The byte of the document at which a script starts. -/
def byteStart (r : Region) : Nat := r.origin.byteOffset.toNat

/-- What is known while a script is read on its own. -/
def context (r : Region) (file language : String) : Extract.Context where
  source := Utf8.encode r.text
  file
  language
  family := .ecmascript
  composite := true

/-- **The move is exact.** In a document in which a script stands between other bytes, a position of
the script goes to the position of the same byte. -/
theorem shift_inSource {r : Region} {before script after : Bytes}
    (horigin : r.origin = .inSource (before ++ script ++ after) before.length) {b : Nat}
    (hb : b ≤ script.length) :
    r.shift (.inSource script b) =
      .inSource (before ++ script ++ after) (before.length + b) := by
  have hscript : Source.pointAt script b = Source.endPoint (script.take b) :=
    Source.pointAt_eq_endPoint hb
  have hbefore : Source.pointAt (before ++ script ++ after) before.length =
      Source.endPoint before := by
    rw [List.append_assoc, Source.pointAt_append_left]
  have hthere : Source.pointAt (before ++ script ++ after) (before.length + b) =
      Source.endPoint (before ++ script.take b) := by
    have htake : (before ++ script ++ after).take (before.length + b) =
        before ++ script.take b := by
      rw [List.append_assoc, List.take_length_add_append, List.take_append_of_le_length hb]
    rw [Source.pointAt_eq_endPoint (by simp; omega), htake]
  have hlength : (script.take b).length = b := List.length_take_of_le hb
  rw [shift, lineOffset, horigin, Position.inSource, Position.inSource, Position.inSource,
    hscript, hbefore, hthere, Source.endPoint_append]
  by_cases hnl : Source.newline ∈ script.take b
  · have hrow : 0 < (Source.endPoint (script.take b)).row := List.count_pos_iff.mpr hnl
    have hline : ¬ ((Source.endPoint (script.take b)).row : Int) + 1 = 1 := by omega
    rw [if_pos hnl]
    simp only [hline, if_false, Position.mk.injEq, true_and]
    omega
  · have hrow : (Source.endPoint (script.take b)).row = 0 := List.count_eq_zero_of_not_mem hnl
    have hcolumn : (Source.endPoint (script.take b)).column = b := by
      have hstep := Source.endPoint_append [] (script.take b)
      rw [if_neg hnl, List.nil_append, hlength] at hstep
      rw [hstep]
      exact Nat.zero_add b
    rw [if_neg hnl, hrow, hcolumn, hlength]
    simp only [Position.mk.injEq]
    omega

/-- The bytes of a script are a piece of the bytes of its document, at the byte where it starts. -/
theorem exists_around {text : List Char} {r : Region} (h : r ∈ regions text) :
    ∃ before after, Utf8.encode text = before ++ Utf8.encode r.text ++ after ∧
      r.origin = .inSource (Utf8.encode text) before.length := by
  obtain ⟨p, hp, rfl⟩ := List.mem_map.mp h
  obtain ⟨before, after, htext, hlength⟩ := body_of_mem_elements hp
  refine ⟨Utf8.encode before, Utf8.encode after, ?_, ?_⟩
  · rw [← Utf8.encode_append, ← Utf8.encode_append]
    exact congrArg Utf8.encode htext
  · have htake : text.take (p.place + p.element.bodyStart scriptName) = before := by
      rw [← hlength, htext, List.append_assoc, List.take_left]
    dsimp only
    rw [positionAt_eq_inSource, htake]
    rfl

/-- The position of a byte in a script goes to that of the same byte of the document. -/
theorem shift_eq_inSource {text : List Char} {r : Region} (h : r ∈ regions text) {b : Nat}
    (hb : b ≤ (Utf8.encode r.text).length) :
    r.shift (.inSource (Utf8.encode r.text) b) =
      .inSource (Utf8.encode text) (r.byteStart + b) := by
  obtain ⟨before, after, htext, horigin⟩ := exists_around h
  rw [byteStart, horigin, htext]
  exact shift_inSource (htext ▸ horigin) hb

/-- The bytes of a script are those of the document from where it starts. -/
theorem slice_eq_encode {text : List Char} {r : Region} (h : r ∈ regions text) :
    Source.slice (Utf8.encode text) r.byteStart
      (r.byteStart + (Utf8.encode r.text).length) = Utf8.encode r.text := by
  obtain ⟨before, after, htext, horigin⟩ := exists_around h
  have hstart : r.byteStart = before.length := by
    rw [byteStart, horigin]
    rfl
  rw [hstart, htext, Source.slice_append]

/-- The span of a tree of a script goes to the span of the same bytes. -/
theorem shiftSpan_ofTree {text : List Char} {r : Region} (h : r ∈ regions text) {t u : Tree}
    (ht : t.Within (Utf8.encode r.text).length) (hu : u ∈ t.preorder) :
    r.shiftSpan (.ofTree (Utf8.encode r.text) u) =
      (Span.ofTree (Utf8.encode r.text) u).placedIn (Utf8.encode text) r.byteStart := by
  obtain ⟨hstart, hstop⟩ := ht u hu
  rw [shiftSpan, Span.ofTree, shift_eq_inSource h hstart, shift_eq_inSource h hstop]
  rfl

/-- What was read off a tree of a script is moved to the same bytes. -/
theorem shiftExtraction_eq_placedIn {text : List Char} {r : Region} (h : r ∈ regions text)
    {file language : String} {t : Tree} (ht : t.Within (Utf8.encode r.text).length)
    {e : Extraction} (he : Extract.extract (r.context file language) t = .ok e) :
    r.shiftExtraction e = e.placedIn (Utf8.encode text) r.byteStart := by
  unfold shiftExtraction Extraction.placedIn
  congr 1
  · refine List.map_congr_left fun s hs => ?_
    obtain ⟨whole, hwhole, name, hname, hstands⟩ := Extract.declaredIn_of_mem_extract he hs
    rw [hstands.span, hstands.nameSpan]
    have hspan := shiftSpan_ofTree h ht hwhole
    have hnameSpan := shiftSpan_ofTree h ht (Tree.mem_preorder_trans hwhole hname)
    exact congrArg₂ (fun span nameSpan => { s with span, nameSpan }) hspan hnameSpan
  · refine List.map_congr_left fun i hi => ?_
    obtain ⟨u, hu, _, _, _, rfl⟩ := Extract.importedIn_of_mem_extract he hi
    exact congrArg (fun span => { Extract.importAt _ _ _ _ _ with span }) (shiftSpan_ofTree h ht hu)
  · refine List.map_congr_left fun x hx => ?_
    obtain ⟨u, hu, _, _, _, rfl⟩ := Extract.exportedIn_of_mem_extract he hx
    exact congrArg (fun span => { Extract.exportAt _ _ _ _ _ with span }) (shiftSpan_ofTree h ht hu)
  · refine List.map_congr_left fun u hu => ?_
    obtain ⟨name, hname, _, rfl⟩ := Extract.referredIn_of_mem_extract he hu
    exact congrArg (fun span => { Extract.reference _ _ _ with span }) (shiftSpan_ofTree h ht hname)

/-- What is read off a script is what parsing it on its own gives, at its place. -/
theorem regionExtraction_eq {text : List Char} {r : Region} (h : r ∈ regions text)
    {grammars : Grammars}
    (htree : ∀ t, grammars.tree? r.grammar (Utf8.encode r.text) = some t →
      t.Within (Utf8.encode r.text).length) (file language : String) :
    regionExtraction grammars file language r =
      (parseSource grammars r.grammar (r.context file language)).map fun script =>
        (script.getD {}).placedIn (Utf8.encode text) r.byteStart := by
  unfold regionExtraction
  change (parseSource grammars r.grammar (r.context file language) >>= _) = _
  cases hparsed : parseSource grammars r.grammar (r.context file language) with
  | error f => rfl
  | ok script =>
      cases script with
      | none => rfl
      | some e =>
          obtain ⟨t, ht, he⟩ := Extract.extract_of_parseSource hparsed
          exact congrArg Except.ok (shiftExtraction_eq_placedIn h (htree t ht) he)

end Region

/-- The same records, and some symbols after the others. -/
def declaring (e : Extraction) (symbols : List Symbol) : Extraction :=
  { e with symbols := e.symbols ++ symbols }

/-- What the macros of a script declare in a document of some flavour: something only in the setup script
of a Vue component. -/
structure Declared (flavour : Flavour) (text : List Char) (file language : String) (r : Region)
    (symbols : List Symbol) : Prop where
  setup : flavour = .vue → HasSetup none r.attributes → DeclaresMacros text file language r symbols
  other : ¬ (flavour = .vue ∧ HasSetup none r.attributes) → symbols = []

/-- What is added to a script is what its macros declare. -/
theorem exists_declared (flavour : Flavour) (text : List Char) (file language : String) (r : Region) :
    ∃ symbols, Declared flavour text file language r symbols ∧
      ∀ e, withSetup flavour text file language r e = declaring e symbols := by
  by_cases hsetup : (flavour = .vue && r.isSetup) = true
  · refine ⟨setupSymbols text file language r, ⟨fun _ _ => ?_, fun hnot => absurd ?_ hnot⟩,
      fun e => ?_⟩
    · exact declaresMacros_setupSymbols text file language r
    · simpa [isSetup_iff] using hsetup
    · rw [withSetup, if_pos hsetup]
      rfl
  · refine ⟨[], ⟨fun hvue hhas => absurd ?_ hsetup, fun _ => rfl⟩, fun e => ?_⟩
    · simpa [isSetup_iff] using And.intro hvue hhas
    · rw [withSetup, if_neg hsetup, declaring, List.append_nil]

/-- A document put together from its scripts: the component, then what the scripts have in their
order, and the references of the markup. -/
def assembled (flavour : Flavour) (text : List Char) (file language : String)
    (scripts : List Extraction) : Extraction where
  symbols := componentSymbol text file language :: scripts.flatMap Extraction.symbols
  imports := scripts.flatMap Extraction.imports
  exports := scripts.flatMap Extraction.exports
  references := scripts.flatMap Extraction.references ++ markupReferences flavour text file

/-- A document is read by parsing its scripts one by one and putting them together at their places. -/
theorem extract_eq_assembled {text : List Char} {grammars : Grammars}
    (htree : ∀ r ∈ regions text, ∀ t, grammars.tree? r.grammar (Utf8.encode r.text) = some t →
      t.Within (Utf8.encode r.text).length) (flavour : Flavour) (file language : String) :
    extract grammars flavour text file language =
      ((regions text).mapM fun r => parseSource grammars r.grammar (r.context file language)).map
        fun scripts => assembled flavour text file language
          ((regions text).zipWith (fun r script => withSetup flavour text file language r
            ((script.getD {}).placedIn (Utf8.encode text) r.byteStart)) scripts) := by
  have hregions : (regions text).mapM (fun r => do
      return withSetup flavour text file language r (← regionExtraction grammars file language r)) =
      (regions text).mapM fun r =>
        (parseSource grammars r.grammar (r.context file language)).map fun script =>
          withSetup flavour text file language r
            ((script.getD {}).placedIn (Utf8.encode text) r.byteStart) := by
    refine Attempt.mapM_congr fun r hr => ?_
    rw [Region.regionExtraction_eq hr (htree r hr)]
    cases parseSource grammars r.grammar (r.context file language) with
    | error f => rfl
    | ok script => rfl
  unfold extract
  rw [hregions, Attempt.mapM_map]
  cases (regions text).mapM fun r => parseSource grammars r.grammar (r.context file language) with
  | error f => rfl
  | ok scripts => rfl

section Scripts

/-- A document with a script on the line of its opening tag, behind a wide character, and an empty
script. -/
def twoScripts : List Char := "é<script>f()\ng()</script>\n<script lang=ts></script>".toList

/-- A component with a setup script that calls a function and a macro. -/
def setupScript : List Char := "é<script setup>f()\ndefineProps()</script>".toList

/-- A call of a name of one character. -/
def shortCall (start : Nat) : Tree :=
  .node ⟨"call_expression", true, start, start + 3, none⟩
    [.node ⟨"identifier", true, start, start + 1, some "function"⟩ []]

/-- Grammars that find some calls in every script but an empty one. -/
def callGrammars (calls : List Nat) : Grammars where
  isMissing _ := false
  tree? _ source :=
    some (.node ⟨"program", true, 0, source.length, none⟩
      (if source.isEmpty then [] else calls.map shortCall))

/-- The symbols of a document, and where its references start. -/
def outline (e : Extraction) : List (String × Position) × List (String × Position) :=
  (e.symbols.map fun s => (s.name, s.span.start), e.references.map fun u => (u.name, u.span.start))

/-- The setup script. -/
def setupRegion : Region :=
  ⟨" setup".toList, "f()\ndefineProps()".toList, 15, ⟨1, 16, 16⟩⟩

end Scripts

end Document

end Concordance
