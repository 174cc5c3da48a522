import Concordance.Parse.Basic
import Concordance.Proofs.Extract.Declared
import Concordance.Proofs.Extract.Uses
import Concordance.Proofs.Source.Point

/-!
# Spans of symbols and references

If the spans of a tree are nested and end in the source, every symbol that is read off the tree spans
a stretch of the source that contains its name, and its name is the text of that stretch; a reference
is the text of its own span. This is `Extract.spans_of_parseSource`: it holds in every family, because
it only depends on where symbols and references come from.
-/

namespace Concordance

namespace Tree

variable {source : Bytes} {t u : Tree}

/-- A tree of nested spans does not end before it starts. -/
theorem Nested.not_stop_before_start (h : t.Nested source.length) :
    ¬ (Span.ofTree source t).stop.before (Span.ofTree source t).start := by
  obtain ⟨hle, hstop, -⟩ := h t t.self_mem_preorder
  exact Position.not_before_inSource hle hstop

/-- The span of a tree contains the span of what stands below it. -/
theorem Nested.contains (h : t.Nested source.length) (hu : u ∈ t.preorder) :
    (Span.ofTree source t).contains (Span.ofTree source u) := by
  obtain ⟨hstart, hstop⟩ := h.inside hu
  obtain ⟨hle, hlimit, -⟩ := h u hu
  obtain ⟨-, hend, -⟩ := h t t.self_mem_preorder
  rw [Span.contains, Bool.and_eq_true]
  exact ⟨Position.notAfter_inSource hstart (Nat.le_trans hle hlimit),
    Position.notAfter_inSource hstop hend⟩

end Tree

namespace Extract

variable {ctx : Context} {t : Tree}

/-- A symbol that is declared in a tree has a span that contains its name, and its name is the text
there. -/
theorem DeclaredIn.spans {s : Symbol} (ht : t.Nested ctx.source.length)
    (h : DeclaredIn ctx t s) :
    ¬ s.span.stop.before s.span.start ∧ s.span.contains s.nameSpan ∧
      s.name = s.nameSpan.text ctx.source := by
  obtain ⟨whole, hwhole, name, hname, hs⟩ := h
  have hnested := ht.below hwhole
  rw [hs.called, hs.nameSpan, hs.span]
  exact ⟨hnested.not_stop_before_start, hnested.contains hname, rfl⟩

/-- The name of a reference is the text where it stands. -/
theorem ReferredIn.name_eq {u : Reference} (h : ReferredIn ctx t u) :
    u.name = u.span.text ctx.source := by
  obtain ⟨name, -, kind, rfl⟩ := h
  rfl

/-- What is parsed was extracted from the tree of the source. -/
theorem extract_of_parseSource {grammars : Grammars} {grammar : String} {e : Extraction}
    (h : parseSource grammars grammar ctx = .ok (some e)) :
    ∃ t, grammars.tree? grammar ctx.source = some t ∧ extract ctx t = .ok e := by
  unfold parseSource at h
  split at h
  · cases h
  · split at h
    · cases h
    · next t ht =>
      cases hextract : extract ctx t with
      | error f => rw [hextract] at h; cases h
      | ok e' =>
          rw [hextract] at h
          cases h
          exact ⟨t, ht, hextract⟩

/-- **Spans and names are sound.** Let the spans of the tree of a source be nested. Then, whatever the
family and whether or not the source is a script of a document, no symbol ends before it starts, each
symbol contains its name, and its name is the text of the bytes where its name stands; and each
reference is the text of the bytes that it spans. -/
theorem spans_of_parseSource {grammars : Grammars} {grammar : String} {e : Extraction}
    (htree : ∀ t, grammars.tree? grammar ctx.source = some t → t.Nested ctx.source.length)
    (h : parseSource grammars grammar ctx = .ok (some e)) :
    (∀ s ∈ e.symbols,
      ¬ s.span.stop.before s.span.start ∧ s.span.contains s.nameSpan ∧
        s.name = s.nameSpan.text ctx.source) ∧
      ∀ u ∈ e.references, u.name = u.span.text ctx.source := by
  obtain ⟨t, ht, hextract⟩ := extract_of_parseSource h
  exact ⟨fun s hs => (declaredIn_of_mem_extract hextract hs).spans (htree t ht),
    fun u hu => (referredIn_of_mem_extract hextract hu).name_eq⟩

section Decorated

/-- The source of a decorated function that calls another. -/
def decoratedSource : Bytes := Utf8.bytes "@d\ndef é(): g()\n"

/-- A node of a tree. -/
def spanned (kind : String) (start stop : Nat) (field : Option String) (children : List Tree) :
    Tree :=
  .node ⟨kind, true, start, stop, field⟩ children

/-- The tree of the decorated function. -/
def decoratedTree : Tree :=
  spanned "module" 0 17 none
    [spanned "decorated_definition" 0 16 none
      [spanned "decorator" 0 2 none [spanned "identifier" 1 2 none []],
       spanned "function_definition" 3 16 (some "definition")
        [spanned "identifier" 7 9 (some "name") [],
         spanned "parameters" 9 11 (some "parameters") [],
         spanned "block" 13 16 (some "body")
          [spanned "call" 13 16 none [spanned "identifier" 13 14 (some "function") []]]]]]

/-- What is known of the decorated function. -/
def decoratedContext : Context where
  source := decoratedSource
  file := "m.py"
  language := "python"
  family := .python

/-- The grammar of the decorated function. -/
def decoratedGrammars : Grammars where
  isMissing _ := false
  tree? _ _ := some decoratedTree

/-- What is read off the decorated function. -/
def decoratedExtraction : Extraction :=
  ((parseSource decoratedGrammars "python" decoratedContext).toOption.bind id).getD {}

theorem parseSource_decorated :
    parseSource decoratedGrammars "python" decoratedContext = .ok (some decoratedExtraction) := by
  decide +kernel

/-- A function spans its decorator too, and a name may have more bytes than characters. -/
theorem spans_of_parseSource_decorated :
    decoratedExtraction.symbols.map Symbol.name = ["é"] ∧
      decoratedExtraction.references.map Reference.name = ["d", "g"] ∧
      (∀ s ∈ decoratedExtraction.symbols,
        ¬ s.span.stop.before s.span.start ∧ s.span.contains s.nameSpan ∧
          s.name = s.nameSpan.text decoratedSource) ∧
      ∀ u ∈ decoratedExtraction.references, u.name = u.span.text decoratedSource := by
  have htree : ∀ t, decoratedGrammars.tree? "python" decoratedSource = some t →
      t.Nested decoratedSource.length := by
    intro t ht
    cases ht
    decide +kernel
  exact ⟨by decide +kernel, by decide +kernel, spans_of_parseSource htree parseSource_decorated⟩

end Decorated

end Extract

end Concordance
