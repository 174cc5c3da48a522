import Concordance.Proofs.Chars.Utf8
import Concordance.Proofs.Toml.Document
import Concordance.Settings.Document

/-!
# Settings that were saved are loaded

Settings are saved as a document of a few lines. Loading it gives the settings back, as long as none
of their texts has a control character in it. With a single one the text is no document any more, and
then the defaults are loaded in place of all that was saved, without a fault (`ofBytes_write`).
-/

namespace Concordance.Settings

/-- Settings that the reader takes as they are: positive numbers, a folder, and known languages. -/
structure Valid (s : Settings) : Prop where
  workers : 0 < s.indexing.workers
  largestFile : 0 < s.indexing.largestFile
  limit : 0 < s.searching.limit
  folder : s.indexing.folder ≠ ""
  languages : ∀ l ∈ s.scope.languages, (Language.ofName? l).isSome

/-- Whether no text of the settings has a control character. -/
def isClean (s : Settings) : Bool :=
  (s.scope.name :: s.indexing.folder :: (s.scope.included ++ s.scope.excluded)).all fun t =>
    Toml.hasNoControl t.toList

/-- The lines of the document that settings are saved as. -/
def document (s : Settings) : List Toml.Line :=
  [.comment " polyindex configuration",
   .blank,
   .header "project",
   .field "name" (.text s.scope.name),
   .field "include" (.texts s.scope.included),
   .field "exclude" (.texts s.scope.excluded),
   .field "languages" (.texts s.scope.languages),
   .blank,
   .header "indexing",
   .field "max_workers" (.number (.integer s.indexing.workers)),
   .field "max_file_size_bytes" (.number (.integer s.indexing.largestFile)),
   .field "respect_gitignore" (.bool s.indexing.respectsIgnoreFile),
   .field "index_dir" (.text s.indexing.folder),
   .blank,
   .header "search",
   .field "default_limit" (.number (.integer s.searching.limit)),
   .field "fuzzy" (.bool s.searching.fuzzy)]

theorem write_eq_writeLines (s : Settings) : s.write = Toml.writeLines s.document := rfl

theorem writable_texts (items : List String) : Toml.Writable (.texts items) := by
  apply Toml.Writable.array
  intro v hv
  obtain ⟨t, -, rfl⟩ := List.mem_map.mp hv
  exact .text t

/-- Every line of the document can be written. -/
theorem wellFormed_document (s : Settings) : ∀ line ∈ s.document, line.WellFormed := by
  simp only [document, List.mem_cons, forall_eq_or_imp, List.not_mem_nil, false_implies,
    implies_true, and_true]
  exact ⟨.comment (by decide), .blank, .header (by decide), .field (by decide) (.text _),
    .field (by decide) (writable_texts _), .field (by decide) (writable_texts _),
    .field (by decide) (writable_texts _), .blank, .header (by decide),
    .field (by decide) (.integer _), .field (by decide) (.integer _), .field (by decide) (.bool _),
    .field (by decide) (.text _), .blank, .header (by decide), .field (by decide) (.integer _),
    .field (by decide) (.bool _)⟩

/-- The name of a language is in lower case and has no control characters. -/
theorem lower_of_ofName? {l : String} (h : (Language.ofName? l).isSome) :
    Text.lower l = l ∧ Toml.hasNoControl l.toList := by
  have hall : ∀ k : Language, Text.lower k.name = k.name ∧ Toml.hasNoControl k.name.toList := by
    intro k
    cases k <;> decide
  obtain ⟨k, hk⟩ := Option.isSome_iff_exists.mp h
  have hname : k.name = l := by
    have := List.find?_some hk
    simpa using this
  exact hname ▸ hall k

theorem areClean_map_text (items : List String) :
    Toml.areClean (items.map .text) = items.all fun t => Toml.hasNoControl t.toList := by
  induction items with
  | nil => rfl
  | cons t items ih =>
      rw [List.map_cons, Toml.areClean, ih, Toml.isClean, List.all_cons]

/-- The document is clean if the settings are. -/
theorem Valid.all_isClean_document {s : Settings} (hs : s.Valid) :
    s.document.all Toml.Line.isClean = s.isClean := by
  have hlanguages : Toml.areClean (s.scope.languages.map .text) = true := by
    rw [areClean_map_text, List.all_eq_true]
    exact fun l hl => (lower_of_ofName? (hs.languages l hl)).2
  simp only [document, List.all_cons, List.all_nil, Toml.Line.isClean, Toml.texts, Toml.isClean,
    hlanguages, areClean_map_text, isClean, List.all_append, Bool.true_and, Bool.and_true]
  -- the folder comes after the lists in the document
  simp only [Bool.and_comm, Bool.and_left_comm]

/-- The tables that the document says. -/
def tables (s : Settings) : List (String × Toml) :=
  [("project", .table
     [("name", .text s.scope.name), ("include", .texts s.scope.included),
      ("exclude", .texts s.scope.excluded), ("languages", .texts s.scope.languages)]),
   ("indexing", .table
     [("max_workers", .number (.integer s.indexing.workers)),
      ("max_file_size_bytes", .number (.integer s.indexing.largestFile)),
      ("respect_gitignore", .bool s.indexing.respectsIgnoreFile),
      ("index_dir", .text s.indexing.folder)]),
   ("search", .table
     [("default_limit", .number (.integer s.searching.limit)), ("fuzzy", .bool s.searching.fuzzy)])]

/-- Carrying out the statements of the document makes its tables. -/
theorem foldlM_document (s : Settings) :
    ((s.document.filterMap Toml.Line.statement?).foldlM Toml.Draft.step? {}).map
      (Toml.valuesOf ·.entries) = some s.tables := rfl

theorem texts?_texts (items : List String) : texts? (.texts items) = some items := by
  rw [Toml.texts, texts?]
  induction items with
  | nil => rfl
  | cons t items ih =>
      rw [List.map_cons, List.mapM_cons, ih]
      rfl

/-- Known languages are read as they are named. -/
theorem knownLanguages_eq {names : List String}
    (h : ∀ l ∈ names, (Language.ofName? l).isSome) : knownLanguages names = names := by
  have hlower : names.map Text.lower = names := by
    rw [List.map_congr_left fun l hl => (lower_of_ofName? (h l hl)).1, List.map_id']
  rw [knownLanguages, hlower, List.filter_eq_self]
  exact h

/-- A list of texts is read from its field. -/
theorem textList_texts {fields : Fields} {key : String} {items : List String}
    (h : fields.lookup key = some (.texts items)) (default : List String) :
    textList fields key default = items := by
  rw [textList, h]
  dsimp only
  rw [texts?_texts]
  rfl

/-- A positive number is read from its field. -/
theorem positive_integer {fields : Fields} {key : String} {i : Int}
    (h : fields.lookup key = some (.number (.integer i))) (hi : 0 < i) (default : Int) :
    positive fields key default = i := by
  rw [positive, h]
  exact if_pos hi

/-- The tables give the settings back. -/
theorem Valid.ofDocument_tables {s : Settings} (hs : s.Valid) : ofDocument s.tables = .ok s := by
  obtain ⟨fields, hproject⟩ : ∃ fields, tableOf s.tables "project" = .ok fields := ⟨_, rfl⟩
  obtain ⟨fields', hindexing⟩ : ∃ fields, tableOf s.tables "indexing" = .ok fields := ⟨_, rfl⟩
  obtain ⟨fields'', hsearch⟩ : ∃ fields, tableOf s.tables "search" = .ok fields := ⟨_, rfl⟩
  have hscope : readScope fields = s.scope := by
    cases hproject
    rw [readScope, textList_texts rfl, textList_texts rfl, textList_texts rfl,
      knownLanguages_eq hs.languages]
    rfl
  have hbuilt : readIndexing fields' = s.indexing := by
    cases hindexing
    rw [readIndexing, positive_integer rfl hs.workers, positive_integer rfl hs.largestFile]
    have hfolder : s.indexing.folder.isEmpty = false := by simpa using hs.folder
    change Indexing.mk _ _ _ (if s.indexing.folder.isEmpty then _ else _) = _
    rw [hfolder]
    rfl
  have hsearched : readSearching fields'' = s.searching := by
    cases hsearch
    rw [readSearching, positive_integer rfl hs.limit]
    rfl
  rw [ofDocument, hproject, hindexing, hsearch]
  change Except.ok (Settings.mk (readScope fields) (readIndexing fields') (readSearching fields'')) = _
  rw [hscope, hbuilt, hsearched]

/-- **What is loaded of saved settings.** Let the numbers be positive, the folder not empty, and all
languages known. If no text has a control character other than a tab, the settings are loaded as they
were saved. Else the defaults are loaded, and all the settings are lost. So the settings come back
only in the first case. -/
theorem ofBytes_write {s : Settings} (hs : s.Valid) :
    ofBytes (Utf8.encode s.write) = .ok (if s.isClean then s else {}) ∧
      (ofBytes (Utf8.encode s.write) = .ok s ↔ s.isClean) := by
  have hload : ofBytes (Utf8.encode s.write) = .ok (if s.isClean then s else {}) := by
    rw [ofBytes, Utf8.decode?_encode]
    dsimp only
    rw [ofText, write_eq_writeLines, Toml.parse?_writeLines s.wellFormed_document,
      hs.all_isClean_document, foldlM_document]
    by_cases hclean : s.isClean = true
    · rw [if_pos hclean, if_pos hclean]
      exact hs.ofDocument_tables
    · rw [if_neg hclean, if_neg hclean]
  refine ⟨hload, ?_⟩
  rw [hload]
  by_cases hclean : s.isClean = true
  · rw [if_pos hclean]
    exact iff_of_true rfl hclean
  · -- the defaults are clean, so they are other settings
    rw [if_neg hclean]
    refine iff_of_false (fun heq => hclean ?_) hclean
    rw [← Except.ok.inj heq]
    decide

/-- Settings with a name of two lines. -/
def twoLined : Settings := { scope := { name := "a\nb" }, indexing := { workers := 2 } }

/-- Settings with a name of one line that has a tab, a quote and a backslash in it. -/
def oneLined : Settings := { scope := { name := "a\t\"\\b" }, indexing := { workers := 2 } }

/-- With a newline in the name of the project all settings are lost, the number of workers as well;
with a tab, a quote and a backslash they come back. -/
theorem ofBytes_write_twoLined :
    twoLined.isClean = false ∧ ofBytes (Utf8.encode twoLined.write) = .ok {} ∧
      ofBytes (Utf8.encode twoLined.write) ≠ .ok twoLined ∧
      oneLined.isClean = true ∧ ofBytes (Utf8.encode oneLined.write) = .ok oneLined := by
  have htwo : twoLined.Valid := ⟨by decide, by decide, by decide, by decide, by simp [twoLined]⟩
  have hone : oneLined.Valid := ⟨by decide, by decide, by decide, by decide, by simp [oneLined]⟩
  have hunclean : twoLined.isClean = false := by decide
  have hclean : oneLined.isClean = true := by decide
  refine ⟨hunclean, ?_, ?_, hclean, (ofBytes_write hone).2.mpr hclean⟩
  · rw [(ofBytes_write htwo).1, hunclean]
    rfl
  · rw [Ne, (ofBytes_write htwo).2, hunclean]
    exact Bool.false_ne_true

end Concordance.Settings
