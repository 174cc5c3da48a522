import Concordance.Proofs.Json.Number
import Concordance.Record.Writer

/-!
# Records can be stored

The JSON form of a record has no key twice, and its numbers are integers apart from two: the time at
which a file was changed and the time at which a project was indexed.
-/

namespace Concordance

open Json (Storable)

namespace Json

@[simp]
theorem storable_text (s : String) : Storable (.text s) := .text s

@[simp]
theorem storable_bool (b : Bool) : Storable (.bool b) := .bool b

@[simp]
theorem storable_integer (i : Int) : Storable (integer i) := .number (readsBack_integer i)

@[simp]
theorem storable_optional (o : Option String) : Storable (optional o) := by
  cases o with
  | none => exact .null
  | some s => exact .text s

/-- A list of values that can be stored can be stored. -/
theorem storable_array_map {α : Type} {write : α → Json} {xs : List α}
    (h : ∀ x ∈ xs, Storable (write x)) : Storable (.array (xs.map write)) :=
  .array (List.forall_mem_map.mpr h)

@[simp]
theorem storable_texts (xs : List String) : Storable (texts xs) :=
  storable_array_map fun s _ => .text s

/-- So can a roster of them, since its keys are distinct. -/
theorem storable_roster {α : Type} {write : α → Json} {r : Roster String α}
    (h : ∀ x ∈ r.values, Storable (write x)) : Storable (.object (r.map write).entries) := by
  refine .object (r.map write).nodup (List.forall_mem_map.mpr fun e he => ?_)
  exact h e.2 (List.mem_map_of_mem he)

end Json

@[simp]
theorem Position.storable (p : Position) : Storable p.toJson :=
  .object (by simp) (by simp)

@[simp]
theorem Span.storable (s : Span) : Storable s.toJson :=
  .object (by simp) (by simp)

theorem Parameter.storable (p : Parameter) : Storable p.toJson :=
  .object (by simp) (by simp)

theorem Symbol.storable (s : Symbol) : Storable s.toJson := by
  have hparameters := Json.storable_array_map fun p (_ : p ∈ s.parameters) => p.storable
  exact .object (by simp) (by simp [hparameters])

theorem Reference.storable (r : Reference) : Storable r.toJson :=
  .object (by simp) (by simp)

theorem ImportSpecifier.storable (s : ImportSpecifier) : Storable s.toJson :=
  .object (by simp) (by simp)

theorem Import.storable (i : Import) : Storable i.toJson := by
  have hspecifiers := Json.storable_array_map fun s (_ : s ∈ i.specifiers) => s.storable
  exact .object (by simp) (by simp [hspecifiers])

theorem Export.storable (e : Export) : Storable e.toJson :=
  .object (by simp) (by simp)

/-- An entry can be stored if the time of the file's last change reads back. -/
theorem FileEntry.storable {e : FileEntry} (h : e.modified.ReadsBack) : Storable e.toJson := by
  have hsymbols := Json.storable_array_map fun s (_ : s ∈ e.symbols) => s.storable
  have himports := Json.storable_array_map fun i (_ : i ∈ e.imports) => i.storable
  have hexports := Json.storable_array_map fun x (_ : x ∈ e.exports) => x.storable
  have hreferences := Json.storable_array_map fun r (_ : r ∈ e.references) => r.storable
  have hmodified : Storable (.number e.modified) := .number h
  exact .object (by simp) (by simp [hsymbols, himports, hexports, hreferences, hmodified])

@[simp]
theorem Scope.storable (s : Scope) : Storable s.toJson :=
  .object (by simp) (by simp)

@[simp]
theorem Statistics.storable_counts (counts : Roster String Int) :
    Storable (countsToJson counts) :=
  Json.storable_roster fun i _ => Json.storable_integer i

@[simp]
theorem Statistics.storable (s : Statistics) : Storable s.toJson :=
  .object (by simp) (by simp)

/-- **An index can be stored** if its times read back. -/
theorem ProjectIndex.storable {index : ProjectIndex} (hindexed : index.indexed.ReadsBack)
    (hmodified : ∀ e ∈ index.files.values, e.modified.ReadsBack) : Storable index.toJson := by
  have htime : Storable (.number index.indexed) := .number hindexed
  have hfiles := Json.storable_roster fun e he => FileEntry.storable (hmodified e he)
  exact .object (by simp) (by simp [htime, hfiles])

end Concordance
