import Concordance.Proofs.Settings.Reload

/-!
# Settings from any file

Whatever a file has in it, the settings that are loaded from it can be used: a number that is not
positive, an empty folder and an unknown language are replaced or dropped (`valid_read`), and a text
that is no document gives the defaults.

Two kinds of files give no settings at all: bytes that are no text, and documents with something else
where one of the three tables should be. `ofBytes_loads` says that there are no others.
-/

namespace Concordance

/-- Whether a value is a table. -/
def Toml.isTable : Toml → Bool
  | .table _ => true
  | _ => false

namespace Settings

/-- The tables that settings are read from, in this order. -/
def tableNames : List String := ["project", "indexing", "search"]

/-- Whether a document has a table under a name, or nothing. -/
def hasTable (document : Fields) (name : String) : Bool :=
  (document.lookup name).all Toml.isTable

/-- Whether a text can give settings: it is no document, or has no value in the place of a table. -/
def HasTables (text : List Char) : Prop :=
  ∀ document, Toml.parse? text = some document → ∀ name ∈ tableNames, hasTable document name

/-! ### What is read can be used -/

/-- A number that is read is positive, like the one in its place. -/
theorem positive_pos (fields : Fields) (key : String) {default : Int} (h : 0 < default) :
    0 < positive fields key default := by
  unfold positive
  split
  · next i _ =>
    by_cases hi : 0 < i
    · rw [if_pos hi]
      exact hi
    · rw [if_neg hi]
      exact h
  · exact h

/-- Only known languages are kept. -/
theorem isSome_of_mem_knownLanguages {names : List String} {l : String}
    (h : l ∈ knownLanguages names) : (Language.ofName? l).isSome :=
  (List.mem_filter.mp h).2

/-- **Usable settings.** Whatever stands in the tables, the settings that are read from them can be
used. -/
theorem valid_read (scope indexing searching : Fields) :
    Valid ⟨readScope scope, readIndexing indexing, readSearching searching⟩ where
  workers := positive_pos indexing _ (by decide)
  largestFile := positive_pos indexing _ (by decide)
  limit := positive_pos searching _ (by decide)
  folder := by
    change (if (shown indexing "index_dir" usualFolder).isEmpty then usualFolder
      else shown indexing "index_dir" usualFolder) ≠ ""
    by_cases hempty : (shown indexing "index_dir" usualFolder).isEmpty = true
    · rw [if_pos hempty]
      decide
    · rw [if_neg hempty]
      intro h
      rw [h] at hempty
      exact hempty (by decide)
  languages := fun _ hl => isSome_of_mem_knownLanguages hl

/-! ### What cannot be read -/

/-- The fields of one of the tables; there are none if there is no table. -/
def fieldsOf (document : Fields) (name : String) : Fields :=
  match document.lookup name with
  | some (.table fields) => fields
  | _ => []

/-- A table is read unless something else bears its name. -/
theorem tableOf_eq (document : Fields) (name : String) :
    tableOf document name =
      if hasTable document name then .ok (fieldsOf document name) else .error (.notATable name) := by
  unfold tableOf hasTable fieldsOf
  cases document.lookup name with
  | none => rfl
  | some v => cases v <;> rfl

/-- The first place of a table that has something else in it. -/
def misfit? (document : Fields) : Option String :=
  tableNames.find? fun name => !hasTable document name

/-- Nothing is amiss if every name of a table is that of a table or is missing. -/
theorem misfit?_eq_none_iff (document : Fields) :
    misfit? document = none ↔ ∀ name ∈ tableNames, hasTable document name := by
  rw [misfit?, List.find?_eq_none]
  simp only [Bool.not_eq_true', Bool.not_eq_false]

/-- **A document** gives the settings of its tables; a table that is none is the fault. -/
theorem ofDocument_eq (document : Fields) :
    ofDocument document =
      (misfit? document).elim
        (.ok ⟨readScope (fieldsOf document "project"), readIndexing (fieldsOf document "indexing"),
          readSearching (fieldsOf document "search")⟩)
        fun name => .error (.notATable name) := by
  simp only [ofDocument, tableOf_eq, misfit?, tableNames, List.find?_cons, List.find?_nil]
  cases hasTable document "project" <;> cases hasTable document "indexing" <;>
    cases hasTable document "search" <;> rfl

/-- The defaults can be used. -/
theorem valid_default : Valid {} := ⟨by decide, by decide, by decide, by decide, fun _ hl => nomatch hl⟩

/-- A text that is no document gives the defaults, and a document what its tables say. -/
theorem ofBytes_encode (text : List Char) :
    ofBytes (Utf8.encode text) = (Toml.parse? text).elim (.ok {}) ofDocument := by
  rw [ofBytes, Utf8.decode?_encode]
  change ofText text = _
  unfold ofText
  cases Toml.parse? text <;> rfl

/-- Bytes that are no text are a fault. -/
theorem ofBytes_of_not_text {bytes : Bytes} (h : ∀ text, bytes ≠ Utf8.encode text) :
    ofBytes bytes = .error .undecodable := by
  rw [ofBytes]
  cases hdecode : Utf8.decode? bytes with
  | none => rfl
  | some text => exact absurd (Utf8.decode?_eq_some_iff.mp hdecode) (h text)

/-- **What becomes of a file.** Its bytes are no text; or its text is no document, and the defaults are
loaded; or it is a document with a misfit, which is the fault; or settings are loaded from it that can
be used. -/
inductive Loading : Bytes → Except Fault Settings → Prop
  | undecodable {bytes : Bytes} (h : ∀ text, bytes ≠ Utf8.encode text) :
      Loading bytes (.error .undecodable)
  | noDocument {text : List Char} (h : Toml.parse? text = none) : Loading (Utf8.encode text) (.ok {})
  | misfit {text : List Char} {document : Fields} {name : String}
      (hparse : Toml.parse? text = some document) (h : misfit? document = some name) :
      Loading (Utf8.encode text) (.error (.notATable name))
  | document {text : List Char} {document : Fields} {s : Settings}
      (hparse : Toml.parse? text = some document) (h : misfit? document = none) (hs : s.Valid) :
      Loading (Utf8.encode text) (.ok s)

/-- **Loading settings** has one of these outcomes, for all bytes. -/
theorem loading_ofBytes (bytes : Bytes) : Loading bytes (ofBytes bytes) := by
  by_cases htext : ∃ text, bytes = Utf8.encode text
  · obtain ⟨text, rfl⟩ := htext
    rw [ofBytes_encode]
    cases hparse : Toml.parse? text with
    | none => exact .noDocument hparse
    | some document =>
        change Loading _ (ofDocument document)
        rw [ofDocument_eq]
        cases hmisfit : misfit? document with
        | none => exact .document hparse hmisfit (valid_read _ _ _)
        | some name => exact .misfit hparse hmisfit
  · rw [not_exists] at htext
    rw [ofBytes_of_not_text htext]
    exact .undecodable htext

section Outcomes

variable {bytes : Bytes} {s : Settings}

/-- All that is loaded can be used. -/
theorem Loading.valid (h : Loading bytes (.ok s)) : s.Valid := by
  cases h with
  | noDocument _ => exact valid_default
  | document _ _ hvalid => exact hvalid

/-- What is loaded comes from a text with the tables in their places. -/
theorem Loading.hasTables (h : Loading bytes (.ok s)) :
    ∃ text, bytes = Utf8.encode text ∧ HasTables text := by
  cases h with
  | noDocument hparse =>
      refine ⟨_, rfl, ?_⟩
      intro document hdocument
      rw [hparse] at hdocument
      cases hdocument
  | document hparse hmisfit _ =>
      refine ⟨_, rfl, ?_⟩
      intro document hdocument
      rw [hparse] at hdocument
      cases hdocument
      exact (misfit?_eq_none_iff _).mp hmisfit

/-- A text with its tables in order can be loaded. -/
theorem exists_ofBytes_of_hasTables {text : List Char} (h : HasTables text) :
    ∃ s, ofBytes (Utf8.encode text) = .ok s := by
  rw [ofBytes_encode]
  cases hparse : Toml.parse? text with
  | none => exact ⟨_, rfl⟩
  | some document =>
      have hread := ofDocument_eq document
      rw [(misfit?_eq_none_iff document).mpr (h document hparse)] at hread
      exact ⟨_, hread⟩

/-- Bytes cannot be decoded if they encode no text. -/
theorem ofBytes_undecodable_iff :
    ofBytes bytes = .error .undecodable ↔ ∀ text, bytes ≠ Utf8.encode text := by
  constructor
  · intro herror
    have hloading := loading_ofBytes bytes
    rw [herror] at hloading
    cases hloading with
    | undecodable h => exact h
  · exact ofBytes_of_not_text

/-- A name is no table if it is the first one for which the document has something else. -/
theorem ofBytes_notATable_iff {name : String} :
    ofBytes bytes = .error (.notATable name) ↔
      ∃ text document, bytes = Utf8.encode text ∧ Toml.parse? text = some document ∧
        misfit? document = some name := by
  constructor
  · intro herror
    have hloading := loading_ofBytes bytes
    rw [herror] at hloading
    cases hloading with
    | misfit hparse h => exact ⟨_, _, rfl, hparse, h⟩
  · rintro ⟨text, document, rfl, hparse, h⟩
    have hread := ofDocument_eq document
    rw [h] at hread
    rw [ofBytes_encode, hparse]
    exact hread

end Outcomes

/-- **Every file gives settings that can be used, two kinds of files apart.** All that is ever loaded
has positive numbers, a folder and known languages only. Something is loaded just if the bytes are
those of a text and no value stands in the place of one of the three tables; a text that is no document
gives the defaults. The two faults are just the two other cases: bytes that are no text, and a document
with a value in the place of a table, of which the first is named. -/
theorem ofBytes_loads (bytes : Bytes) :
    (∀ s, ofBytes bytes = .ok s → s.Valid) ∧
      ((∃ s, ofBytes bytes = .ok s) ↔ ∃ text, bytes = Utf8.encode text ∧ HasTables text) ∧
      (∀ text, bytes = Utf8.encode text → Toml.parse? text = none → ofBytes bytes = .ok {}) ∧
      (ofBytes bytes = .error .undecodable ↔ ∀ text, bytes ≠ Utf8.encode text) ∧
      ∀ name, ofBytes bytes = .error (.notATable name) ↔
        ∃ text document, bytes = Utf8.encode text ∧ Toml.parse? text = some document ∧
          misfit? document = some name := by
  have hloading := loading_ofBytes bytes
  refine ⟨?_, ⟨?_, ?_⟩, ?_, ofBytes_undecodable_iff, fun _ => ofBytes_notATable_iff⟩
  · intro s hs
    rw [hs] at hloading
    exact hloading.valid
  · rintro ⟨s, hs⟩
    rw [hs] at hloading
    exact hloading.hasTables
  · rintro ⟨text, rfl, htables⟩
    exact exists_ofBytes_of_hasTables htables
  · rintro text rfl hparse
    rw [ofBytes_encode, hparse]
    rfl

/-- Three files: a byte that begins no character, a number where the table of the project should be,
and a table with a number of workers that is not positive. Only the third gives settings. -/
theorem ofBytes_loads_faults :
    ofBytes [0xff] = .error .undecodable ∧
      ofBytes (Utf8.encode "project = 1".toList) = .error (.notATable "project") ∧
      ofBytes (Utf8.encode "[indexing]\nmax_workers = 0\n".toList) = .ok {} ∧ Valid {} := by
  have hnumber : Toml.parse? "project = 1".toList = some [("project", .number (.integer 1))] := by
    have htext : "project = 1".toList = Toml.Line.write (.field "project" (.number (.integer 1))) := by
      decide +kernel
    rw [htext, Toml.parse?_field (by decide) (.integer 1)]
    rfl
  have hworkers : ofBytes (Utf8.encode "[indexing]\nmax_workers = 0\n".toList) = .ok {} := by
    decide +kernel
  exact ⟨by decide, ((ofBytes_loads _).2.2.2.2 "project").mpr ⟨_, _, rfl, hnumber, by decide⟩,
    hworkers, (ofBytes_loads _).1 _ hworkers⟩

end Settings

end Concordance
