import Concordance.Proofs.Attempt
import Concordance.Proofs.Roster
import Concordance.Record.Reader
import Concordance.Record.Writer

/-!
# Records read back

Every record is read back from its JSON form, field by field. A field of an object is found under its
key behind any fields with other keys, so the order in which a record is written and the order in which
its fields are asked for need not be the same.
-/

namespace Concordance

namespace Json

section Fields

variable {α : Type} {key key' : String} {v : Json} {rest : List (String × Json)}
  {read : Json → Except RecordError α} {write : α → Json} {default : α}

theorem lookup?_cons_self : (object ((key, v) :: rest)).lookup? key = .ok (some v) := by
  rw [lookup?, List.lookup_cons_self]

theorem lookup?_cons_of_ne (h : key ≠ key') :
    (object ((key', v) :: rest)).lookup? key = (object rest).lookup? key := by
  rw [lookup?, List.lookup_cons, beq_false_of_ne h]
  rfl

@[simp]
theorem get_cons_self : (object ((key, v) :: rest)).get key read = read v := by
  rw [get, require, lookup?_cons_self]
  rfl

@[simp]
theorem get_cons_of_ne (h : key ≠ key') :
    (object ((key', v) :: rest)).get key read = (object rest).get key read := by
  rw [get, require, lookup?_cons_of_ne h]
  rfl

@[simp]
theorem getD_cons_self : (object ((key, v) :: rest)).getD key read default = read v := by
  rw [getD, lookup?_cons_self]
  rfl

@[simp]
theorem getD_cons_of_ne (h : key ≠ key') :
    (object ((key', v) :: rest)).getD key read default = (object rest).getD key read default := by
  rw [getD, lookup?_cons_of_ne h]
  rfl

@[simp]
theorem kindName_cons_self {name : String} :
    (object (("kind", .text name) :: rest)).kindName = .ok name := by
  rw [kindName, lookup?_cons_self]
  rfl

@[simp]
theorem kindName_cons_of_ne (h : "kind" ≠ key') :
    (object ((key', v) :: rest)).kindName = (object rest).kindName := by
  rw [kindName, lookup?_cons_of_ne h]
  rfl

@[simp]
theorem asText_text (s : String) : asText (.text s) = .ok s := rfl

@[simp]
theorem asInteger_integer (i : Int) : asInteger (integer i) = .ok i := rfl

@[simp]
theorem asNumber_number (n : Number) : asNumber (.number n) = .ok n := rfl

@[simp]
theorem asBool_bool (b : Bool) : asBool (.bool b) = .ok b := rfl

@[simp]
theorem asOptionalText_optional (o : Option String) : asOptionalText (optional o) = .ok o := by
  cases o with
  | none => rfl
  | some s => rfl

/-- A list of values that are all read back is read back. -/
theorem asList_map (h : ∀ x, read (write x) = .ok x) (xs : List α) :
    asList read (.array (xs.map write)) = .ok xs := by
  have hmap : (xs.map write).mapM read = .ok xs := by
    rw [List.mapM_map]
    exact (Attempt.mapM_eq_ok fun x _ => h x).trans (congrArg _ (List.map_id xs))
  exact hmap

@[simp]
theorem asList_texts (xs : List String) : asList asText (texts xs) = .ok xs :=
  asList_map asText_text xs

/-- A kind is read back from its name. -/
theorem asKind_text {type name : String} {ofName? : String → Option α} {k : α}
    (h : ofName? name = some k) : asKind type ofName? (.text name) = .ok k := by
  rw [asKind, h]

end Fields

end Json

/-- Values under keys that are all read back are read back, in their order. -/
theorem Roster.ofJson_map {α : Type} {read : Json → Except RecordError α} {write : α → Json}
    (h : ∀ x, read (write x) = .ok x) (r : Roster String α) :
    Roster.ofJson read (.object (r.map write).entries) = .ok r := by
  have hentries : ((r.map write).entries.mapM fun f => do
      let v ← read f.2
      return (f.1, v)) = Except.ok r.entries := by
    rw [Roster.map, List.mapM_map]
    refine (Attempt.mapM_eq_ok fun e _ => ?_).trans (congrArg _ (List.map_id r.entries))
    rw [Function.comp_apply, h e.2]
    rfl
  rw [Roster.ofJson, hentries]
  exact congrArg Except.ok (Roster.ofList_entries r)

/-! ### Kinds -/

theorem SymbolKind.ofName_name (k : SymbolKind) : ofName k.name = k := by
  cases k <;> rfl

theorem ReferenceKind.ofName_name (k : ReferenceKind) : ofName k.name = k := by
  cases k <;> rfl

theorem ImportKind.ofName?_name (k : ImportKind) : ofName? k.name = some k := by
  cases k <;> rfl

theorem ExportKind.ofName?_name (k : ExportKind) : ofName? k.name = some k := by
  cases k <;> rfl

/-! ### Records -/

section Records

open Json (flag optionalText list asList_map asKind_text)

@[simp]
theorem Position.ofJson_toJson (p : Position) : ofJson p.toJson = .ok p := by
  simp [ofJson, toJson]

@[simp]
theorem Span.ofJson_toJson (s : Span) : ofJson s.toJson = .ok s := by
  simp [ofJson, toJson]

theorem Parameter.ofJson_toJson (p : Parameter) : ofJson p.toJson = .ok p := by
  simp [ofJson, toJson, flag, optionalText]

/-- A symbol is read as it was written. -/
theorem Symbol.ofJson_toJson (s : Symbol) : ofJson s.toJson = .ok s := by
  simp [ofJson, toJson, flag, optionalText, list, SymbolKind.ofName_name,
    asList_map Parameter.ofJson_toJson]

/-- So is a reference. -/
theorem Reference.ofJson_toJson (r : Reference) : ofJson r.toJson = .ok r := by
  simp [ofJson, toJson, ReferenceKind.ofName_name]

theorem ImportSpecifier.ofJson_toJson (s : ImportSpecifier) : ofJson s.toJson = .ok s := by
  simp [ofJson, toJson, flag, optionalText]

/-- So is an import. -/
theorem Import.ofJson_toJson (i : Import) : ofJson i.toJson = .ok i := by
  simp [ofJson, toJson, list, asList_map ImportSpecifier.ofJson_toJson,
    asKind_text (ImportKind.ofName?_name _)]

/-- So is an export. -/
theorem Export.ofJson_toJson (e : Export) : ofJson e.toJson = .ok e := by
  simp [ofJson, toJson, optionalText, asKind_text (ExportKind.ofName?_name _)]

/-- **The entry of a file** is read as it was written. -/
theorem FileEntry.ofJson_toJson (e : FileEntry) : ofJson e.toJson = .ok e := by
  simp [ofJson, toJson, list, asList_map Symbol.ofJson_toJson, asList_map Import.ofJson_toJson,
    asList_map Export.ofJson_toJson, asList_map Reference.ofJson_toJson]

/-- So is a scope. -/
@[simp]
theorem Scope.ofJson_toJson (s : Scope) : ofJson s.toJson = .ok s := by
  simp [ofJson, toJson, list]

@[simp]
theorem Statistics.countsOfJson_countsToJson (counts : Roster String Int) :
    countsOfJson (countsToJson counts) = .ok counts :=
  Roster.ofJson_map Json.asInteger_integer counts

/-- So are the counts. -/
@[simp]
theorem Statistics.ofJson_toJson (s : Statistics) : ofJson s.toJson = .ok s := by
  simp [ofJson, toJson]

/-- **An index is read back** from its JSON form. -/
theorem ProjectIndex.ofJson_toJson (index : ProjectIndex) : ofJson index.toJson = .ok index := by
  simp [ofJson, toJson, Roster.ofJson_map FileEntry.ofJson_toJson]

end Records

end Concordance
