import Concordance.Parse.File
import Concordance.Proofs.Extract.Declared
import Concordance.Proofs.Extract.Span
import Concordance.Proofs.Extract.Uses

/-!
# Records that name their file

Every record that is read off a file names the file, and every symbol its language: whatever the
family, and in documents also the component itself, its setup macros, the records of its scripts and
the references of its markup. The main statement is `stamped_parseFile`.
-/

namespace Concordance

/-- All records name a file, and the symbols a language. -/
structure Extraction.Stamped (file language : String) (e : Extraction) : Prop where
  symbols : ∀ s ∈ e.symbols, s.file = file ∧ s.language = language
  imports : ∀ i ∈ e.imports, i.file = file
  exports : ∀ x ∈ e.exports, x.file = file
  references : ∀ u ∈ e.references, u.file = file

theorem Extraction.stamped_empty (file language : String) :
    Extraction.Stamped file language {} where
  symbols _ hs := absurd hs List.not_mem_nil
  imports _ hi := absurd hi List.not_mem_nil
  exports _ hx := absurd hx List.not_mem_nil
  references _ hu := absurd hu List.not_mem_nil

/-- **A tree.** What is extracted is stamped by the context. -/
theorem Extract.stamped_extract {ctx : Context} {t : Tree} {e : Extraction}
    (h : extract ctx t = .ok e) : e.Stamped ctx.file ctx.language where
  symbols s hs := by
    obtain ⟨whole, -, name, -, hstands⟩ := declaredIn_of_mem_extract h hs
    exact ⟨hstands.file, hstands.language⟩
  imports i hi := by
    obtain ⟨u, -, source, specifiers, kind, rfl⟩ := importedIn_of_mem_extract h hi
    rfl
  exports x hx := by
    obtain ⟨u, -, name, kind, source, rfl⟩ := exportedIn_of_mem_extract h hx
    rfl
  references u hu := by
    obtain ⟨name, -, kind, rfl⟩ := referredIn_of_mem_extract h hu
    rfl

/-- **A source.** -/
theorem stamped_parseSource {grammars : Grammars} {grammar : String} {ctx : Extract.Context}
    {e : Extraction} (h : parseSource grammars grammar ctx = .ok (some e)) :
    e.Stamped ctx.file ctx.language := by
  obtain ⟨t, -, hextract⟩ := Extract.extract_of_parseSource h
  exact Extract.stamped_extract hextract

namespace Document

variable {file language : String} {e : Extraction}

/-- Moving records to their place in a document keeps what they name. -/
theorem stamped_shiftExtraction (r : Region) (h : e.Stamped file language) :
    (r.shiftExtraction e).Stamped file language where
  symbols s hs := by
    obtain ⟨s', hs', rfl⟩ := List.mem_map.mp hs
    exact h.symbols s' hs'
  imports i hi := by
    obtain ⟨i', hi', rfl⟩ := List.mem_map.mp hi
    exact h.imports i' hi'
  exports x hx := by
    obtain ⟨x', hx', rfl⟩ := List.mem_map.mp hx
    exact h.exports x' hx'
  references u hu := by
    obtain ⟨u', hu', rfl⟩ := List.mem_map.mp hu
    exact h.references u' hu'

/-- What is found in a script bears the file and the language of the document. -/
theorem stamped_regionExtraction {grammars : Grammars} {r : Region}
    (h : regionExtraction grammars file language r = .ok e) : e.Stamped file language := by
  unfold regionExtraction at h
  obtain ⟨script, hscript, h⟩ := Attempt.exists_of_bind_eq_ok h
  cases script with
  | none =>
      cases h
      exact Extraction.stamped_empty file language
  | some e' =>
      cases h
      exact stamped_shiftExtraction r (stamped_parseSource hscript)

/-- The symbols of setup macros name the document. -/
theorem stamped_setupSymbols {text : List Char} {r : Region} {s : Symbol}
    (hs : s ∈ setupSymbols text file language r) : s.file = file ∧ s.language = language := by
  obtain ⟨m, -, hs⟩ := List.mem_flatMap.mp hs
  obtain ⟨call, -, rfl⟩ := List.mem_map.mp hs
  exact ⟨rfl, rfl⟩

/-- So does what its macros declare. -/
theorem stamped_withSetup (flavour : Flavour) (text : List Char) (r : Region)
    (h : e.Stamped file language) :
    (withSetup flavour text file language r e).Stamped file language := by
  unfold withSetup
  split
  · refine ⟨fun s hs => ?_, h.imports, h.exports, h.references⟩
    rcases List.mem_append.mp hs with hs | hs
    · exact h.symbols s hs
    · exact stamped_setupSymbols hs
  · exact h

/-- The references of the markup name the document. -/
theorem file_of_mem_markupReferences {flavour : Flavour} {text : List Char} {u : Reference}
    (hu : u ∈ markupReferences flavour text file) : u.file = file := by
  rcases List.mem_append.mp hu with hu | hu
  · obtain ⟨p, -, rfl⟩ := List.mem_map.mp hu
    rfl
  · obtain ⟨p, -, rfl⟩ := List.mem_map.mp hu
    rfl

/-- **A document.** -/
theorem stamped_extract {grammars : Grammars} {flavour : Flavour} {text : List Char}
    (h : extract grammars flavour text file language = .ok e) : e.Stamped file language := by
  unfold extract at h
  obtain ⟨scripts, hscripts, h⟩ := Attempt.exists_of_bind_eq_ok h
  have hall : ∀ script ∈ scripts, script.Stamped file language := by
    intro script hmem
    obtain ⟨r, -, hread⟩ := Attempt.exists_of_mem_mapM hscripts hmem
    obtain ⟨e', he', hsetup⟩ := Attempt.exists_of_bind_eq_ok hread
    cases hsetup
    exact stamped_withSetup flavour text r (stamped_regionExtraction he')
  cases h
  refine ⟨?_, ?_, ?_, ?_⟩
  · intro s hs
    rcases List.mem_cons.mp hs with rfl | hs
    · exact ⟨rfl, rfl⟩
    · obtain ⟨script, hscript, hs⟩ := List.mem_flatMap.mp hs
      exact (hall script hscript).symbols s hs
  · intro i hi
    obtain ⟨script, hscript, hi⟩ := List.mem_flatMap.mp hi
    exact (hall script hscript).imports i hi
  · intro x hx
    obtain ⟨script, hscript, hx⟩ := List.mem_flatMap.mp hx
    exact (hall script hscript).exports x hx
  · intro u hu
    rcases List.mem_append.mp hu with hu | hu
    · obtain ⟨script, hscript, hu⟩ := List.mem_flatMap.mp hu
      exact (hall script hscript).references u hu
    · exact file_of_mem_markupReferences hu

end Document

/-- An entry that stands under an id: the entry and all its records name it as their file, and the
symbols have the language of the entry. -/
structure FileEntry.Stamped (id : String) (e : FileEntry) : Prop where
  file : e.file = id
  symbols : ∀ s ∈ e.symbols, s.file = id ∧ s.language = e.language
  imports : ∀ i ∈ e.imports, i.file = id
  exports : ∀ x ∈ e.exports, x.file = id
  references : ∀ u ∈ e.references, u.file = id

/-- **What is found in a file** bears the file and its language. -/
theorem stamped_parseContents {grammars : Grammars} {language : Language} {spec : LanguageSpec}
    {contents : Bytes} {file : String} {e : Extraction}
    (h : parseContents grammars language spec contents file = .ok (some e)) :
    e.Stamped file language.name := by
  unfold parseContents at h
  split at h
  · cases hextract : Document.extract grammars language.flavour (Utf8.decode contents) file
        language.name with
    | error f =>
        rw [hextract] at h
        cases h
    | ok e' =>
        rw [hextract] at h
        cases h
        exact Document.stamped_extract hextract
  · exact stamped_parseSource h

/-- The entry that is made of what was read off a file. -/
def FileEntry.ofExtraction (id language digest : String) (x : Extraction) : FileEntry where
  file := id
  language := language
  digest := digest
  symbols := x.symbols
  imports := x.imports
  exports := x.exports
  references := x.references

/-- So does the entry that is made of it. -/
theorem FileEntry.stamped_ofExtraction {id language digest : String} {x : Extraction}
    (hx : x.Stamped id language) : (ofExtraction id language digest x).Stamped id where
  file := rfl
  symbols := hx.symbols
  imports := hx.imports
  exports := hx.exports
  references := hx.references

/-- **A file.** The entry that is read for a file under an id is stamped with the id, and it bears the
fingerprint of what was read. -/
theorem stamped_parseFile {grammars : Grammars} {path : Path} {contents : Bytes} {id : String}
    {e : FileEntry} (hid : id ≠ "") (h : parseFile grammars path contents id = .ok (some e)) :
    e.Stamped id ∧ e.digest = Digest.fingerprint contents := by
  have hempty : id.isEmpty = false := by simpa using hid
  unfold parseFile at h
  simp only [hempty, Bool.false_eq_true, if_false] at h
  split at h
  · cases h
  · next spec hspec =>
    split at h
    · cases h
    · obtain ⟨read, hread, h⟩ := Attempt.exists_of_bind_eq_ok h
      cases read with
      | none => cases h
      | some x =>
          have hentry : .ofExtraction id (Language.ofPath path).name (Digest.fingerprint contents) x = e :=
            Option.some.inj (Except.ok.inj h)
          rw [← hentry]
          exact ⟨FileEntry.stamped_ofExtraction (stamped_parseContents hread), rfl⟩

end Concordance
