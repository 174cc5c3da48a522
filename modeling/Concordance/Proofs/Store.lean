import Concordance.Proofs.Chars.Utf8
import Concordance.Proofs.Disk.Seat
import Concordance.Proofs.Json.Reader
import Concordance.Proofs.Record.RoundTrip
import Concordance.Proofs.Record.Storable

/-!
# Stored indexes read back

A stored index of the current version is loaded as it was, apart from the name of the project
(`ProjectIndex.stored_reads_back`): its text is the JSON form of the index, which is read back as
bytes, characters, tokens, a value and at last a record. On a plain disk the file that was saved is
the file that is loaded.
-/

namespace Concordance

namespace ProjectIndex

/-- The text of an index is read as the index. -/
theorem ofStored?_stored {index : ProjectIndex} (hversion : index.version = currentVersion)
    (h : Json.Storable index.toJson) : ofStored? (Utf8.bytes index.stored) = some index := by
  have hfield : index.toJson.field? "version" = some (.number (.integer currentVersion)) := by
    rw [← hversion]
    rfl
  rw [ofStored?, Utf8.bytes, stored, Json.render, String.toList_ofList, Utf8.decode?_encode]
  simp only [Option.bind_eq_bind, Option.bind_some, Json.ofChars?_writeValue h, hfield,
    ofJson_toJson, BEq.rfl, if_true]
  rfl

/-- **Stored indexes read back.** The text of an index of the current version is read as the index,
field by field and with its files in their order, under whatever name the project has then; and on a
plain disk that text is what is found after the index was saved. -/
theorem stored_reads_back {index : ProjectIndex} (hversion : index.version = currentVersion)
    (hindexed : index.indexed.Representable)
    (hmodified : ∀ e ∈ index.files.values, e.modified.Representable) (project : String) :
    ofStored project (Utf8.bytes index.stored) = { index with project } ∧
      ∀ (d : Disk) (file : Path), d.Plain → (∀ n ∈ file.parts, Path.IsName n) → file.parts ≠ [] →
        (index.save d file).2 = true →
        load (index.save d file).1 file project = { index with project } := by
  have hstorable := storable hindexed.readsBack fun e he => (hmodified e he).readsBack
  have htext : ofStored project (Utf8.bytes index.stored) = { index with project } := by
    rw [ofStored, ofStored?_stored hversion hstorable]
  refine ⟨htext, fun d file hd hfile hne hsaved => ?_⟩
  rw [load, hd.read?_save hfile hne hsaved]
  exact htext

section Example

/-- A method under a name with quotes, with parameters of all kinds. -/
def quotedMethod : Symbol where
  name := "\"\\q\"\x00"
  kind := .method
  span := ⟨⟨1, 0, 0⟩, ⟨3, 1, 40⟩⟩
  nameSpan := ⟨⟨-1, 9, 9⟩, ⟨1, 12, 12⟩⟩
  file := "b\t.ts"
  language := "typescript"
  documentation := some "tab\t, line\nfeed\x0c and \u2028"
  isStatic := true
  parameters := [⟨"rest", none, some "[]", true, false⟩, ⟨"", some "", none, false, true⟩]
  interfaces := ["A", ""]
  owner := some "C"

/-- The entry of a file that holds the method. -/
def quotedEntry : FileEntry where
  file := "b\t.ts"
  language := "typescript"
  digest := "00ff"
  modified := .ofDecimal ⟨true, 5, -324⟩
  symbols := [quotedMethod]
  imports := [⟨"./a", "b\t.ts", quotedMethod.span, [⟨"x", some "y", false, true⟩], .sideEffect⟩]
  exports := [⟨"q", "b\t.ts", quotedMethod.nameSpan, .handedOn, some "./a"⟩]
  references := [⟨"C", "b\t.ts", quotedMethod.span, "new C()\r", .instantiated⟩]

/-- An index whose texts need escapes, with times of several kinds and a file without anything. -/
def wideIndex : ProjectIndex where
  project := "/old"
  version := currentVersion
  indexed := .ofDecimal ⟨false, 17000000001234567, -7⟩
  scope := ⟨"é\x1f😀", [], ["**/\\*"], ["typescript"]⟩
  statistics := ⟨2, 1, -1, ⟨[("typescript", 1)], by decide⟩, .empty⟩
  files := ⟨[("b\t.ts", quotedEntry), ("a😀.py", ⟨"", "", "", .undefined, [], [], [], []⟩)],
    by decide⟩

def storeFile : Path := ⟨"/", ["work", ".index", "index.json"]⟩

def storeDisk : Disk := ⟨[("work", .folder [("b.ts", .file [])])]⟩

theorem wideIndex_modified : ∀ e ∈ wideIndex.files.values, e.modified.Representable := by
  intro e he
  simp only [wideIndex, Roster.values, List.map_cons, List.map_nil, List.mem_cons,
    List.not_mem_nil, or_false] at he
  rcases he with rfl | rfl
  · exact .real _
  · exact .undefined

theorem wideIndex_saved : (wideIndex.save storeDisk storeFile).2 = true := by
  decide +kernel

/-- An index with escapes in all places is read back under another name of the project. -/
theorem stored_reads_back_wide :
    (wideIndex.save storeDisk storeFile).2 = true ∧
      ofStored "/new" (Utf8.bytes wideIndex.stored) = { wideIndex with project := "/new" } ∧
      load (wideIndex.save storeDisk storeFile).1 storeFile "/new" =
        { wideIndex with project := "/new" } := by
  obtain ⟨htext, hdisk⟩ := stored_reads_back rfl (.real _) wideIndex_modified "/new"
  exact ⟨wideIndex_saved, htext, hdisk storeDisk storeFile
    (Disk.plain_of_allPlain (by decide)) (by decide) (by decide) wideIndex_saved⟩

end Example

end ProjectIndex

end Concordance
