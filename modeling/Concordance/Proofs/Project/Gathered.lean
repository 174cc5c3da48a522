import Concordance.Proofs.Project.Settled

/-!
# What an index gathers

Let some files be found, and let those of them that have one id be read alike. An index *gathers*
files if it holds the entry of each of them that has one, under its id, and nothing else
(`Project.Gathers`). This does not depend on the order in which the files were taken.

A file that is merged into an index is gathered (`Gathers.applied`), so a run from an empty index
gathers all files that it finds (`gathers_runOver`). Where files with one id are not read alike, the
last of them that can be read decides (`Work.get?_applyAll_last`).
-/

namespace Concordance.Project

/-- Files with one id are read alike. -/
def ReadAlike (read : FileReader) (root : List String) (found : List Scan.Found) : Prop :=
  ∀ f ∈ found, ∀ g ∈ found, g.id = f.id → readFound read root g = readFound read root f

/-- The entries of an index are those that files give, each under the id of its file. -/
def Gathers (read : FileReader) (root : List String) (files : Roster String FileEntry)
    (done : List Scan.Found) : Prop :=
  ∀ id e, files.get? id = some e ↔
    ∃ f ∈ done, f.id = id ∧ readFound read root f = .ok (some e)

variable {read : FileReader} {root : List String} {files files' : Roster String FileEntry}
  {done : List Scan.Found} {f : Scan.Found}

theorem gathers_empty : Gathers read root .empty [] := by
  intro id e
  simp [Roster.get?_empty]

/-- What was gathered does not depend on the order of the files. -/
theorem Gathers.of_mem_iff (h : Gathers read root files done) {done' : List Scan.Found}
    (hsame : ∀ f, f ∈ done' ↔ f ∈ done) : Gathers read root files done' := by
  intro id e
  rw [h id e]
  simp only [hsame]

/-- Indexes that gather the same files have the same entries. -/
theorem Gathers.get?_eq (h : Gathers read root files done) (h' : Gathers read root files' done)
    (id : String) : files.get? id = files'.get? id := by
  apply Option.ext
  intro e
  exact (h id e).trans (h' id e).symm

/-- A file that gives no entry has none, if files with its id are read like it. -/
theorem Gathers.get?_eq_none (h : Gathers read root files done)
    (halike : ∀ g ∈ done, g.id = f.id → readFound read root g = readFound read root f)
    (hnone : ∀ e, readFound read root f ≠ .ok (some e)) : files.get? f.id = none := by
  apply Option.eq_none_iff_forall_ne_some.mpr
  intro e hget
  obtain ⟨g, hg, hid, hread⟩ := (h f.id e).mp hget
  exact hnone e ((halike g hg hid).symm.trans hread)

/-- **One more file.** An index with the entry of the file under its id, and unchanged elsewhere,
gathers the file too. -/
theorem Gathers.cons (h : Gathers read root files done)
    (halike : ∀ g ∈ done, g.id = f.id → readFound read root g = readFound read root f)
    (hother : ∀ id, id ≠ f.id → files'.get? id = files.get? id)
    (hself : ∀ e, files'.get? f.id = some e ↔ readFound read root f = .ok (some e)) :
    Gathers read root files' (f :: done) := by
  intro id e
  constructor
  · intro hget
    by_cases hid : id = f.id
    · subst hid
      exact ⟨f, List.mem_cons_self, rfl, (hself e).mp hget⟩
    · rw [hother id hid] at hget
      obtain ⟨g, hg, hread⟩ := (h id e).mp hget
      exact ⟨g, List.mem_cons_of_mem _ hg, hread⟩
  · rintro ⟨g, hg, rfl, hread⟩
    rcases List.mem_cons.mp hg with rfl | hg
    · exact (hself e).mpr hread
    · by_cases hid : g.id = f.id
      · rw [hid]
        exact (hself e).mpr ((halike g hg hid).symm.trans hread)
      · rw [hother g.id hid]
        exact (h g.id e).mpr ⟨g, hg, rfl, hread⟩

/-- A file that a run merges is gathered. -/
theorem Gathers.applied (h : Gathers read root files done)
    (halike : ∀ g ∈ done, g.id = f.id → readFound read root g = readFound read root f) :
    Gathers read root ((Outcome.ofRead (readFound read root f)).applied files f.id) (f :: done) := by
  apply h.cons halike
  · intro id hid
    exact Outcome.get?_applied_of_ne _ _ hid
  · intro e
    cases hread : readFound read root f with
    | error fault =>
        have hnone := h.get?_eq_none halike (by simp [hread])
        simp [Outcome.ofRead, Outcome.applied, hnone]
    | ok result =>
        cases result with
        | none => simp [Outcome.ofRead, Outcome.applied, Roster.get?_erase]
        | some e' => simp [Outcome.ofRead, Outcome.applied, Roster.get?_put]

/-- A file whose entry is put into an index, if it has one, is gathered. -/
theorem Gathers.put (h : Gathers read root files done)
    (halike : ∀ g ∈ done, g.id = f.id → readFound read root g = readFound read root f)
    {e : FileEntry} (hread : readFound read root f = .ok (some e)) :
    Gathers read root (files.put f.id e) (f :: done) := by
  have happlied := h.applied halike
  rw [hread] at happlied
  exact happlied

/-- A file that gives no entry is gathered by an index as it is. -/
theorem Gathers.skip (h : Gathers read root files done)
    (halike : ∀ g ∈ done, g.id = f.id → readFound read root g = readFound read root f)
    (hnone : ∀ e, readFound read root f ≠ .ok (some e)) :
    Gathers read root files (f :: done) := by
  apply h.cons halike (fun _ _ => rfl)
  intro e
  rw [h.get?_eq_none halike hnone]
  simp [hnone]

/-- From an empty index every file is read. -/
theorem outcome_workOn {p : Project} (hempty : p.index.files = .empty) (incremental : Bool)
    (f : Scan.Found) :
    (p.workOn f).outcome read incremental = Outcome.ofRead (readFound read p.root f) := by
  have hstored : (p.workOn f).stored = none := by
    rw [workOn, hempty]
    rfl
  rw [Work.outcome_eq, hstored, if_neg (by simp)]
  rfl

/-- Works that are done one after the other gather their files. -/
theorem Gathers.applyAll {p : Project} (hempty : p.index.files = .empty) (incremental : Bool)
    {found : List Scan.Found} (halike : ReadAlike read p.root found) {rest : List Scan.Found} :
    ∀ {files : Roster String FileEntry} {done : List Scan.Found},
      Gathers read p.root files done → done ⊆ found → rest ⊆ found →
      Gathers read p.root (Work.applyAll read incremental files (rest.map p.workOn))
        (rest ++ done) := by
  induction rest with
  | nil => exact fun h _ _ => h
  | cons f rest ih =>
      intro files done h hdone hrest
      obtain ⟨hf, hrest⟩ := List.cons_subset.mp hrest
      rw [List.map_cons, Work.applyAll_cons, outcome_workOn hempty]
      have hnext := h.applied fun g hg hid => halike f hf g (hdone hg) hid
      apply (ih hnext (List.cons_subset.mpr ⟨hf, hdone⟩) hrest).of_mem_iff
      intro g
      simp only [List.cons_append, List.mem_cons, List.mem_append]
      exact or_left_comm

/-- **A whole run** from an empty index gathers the files that it finds, if it comes to its end. -/
theorem gathers_runOver {p : Project} (hempty : p.index.files = .empty) {incremental : Bool}
    {stopAt : Option Nat} {found : List Scan.Found} (halike : ReadAlike read p.root found)
    (hdone : (p.runOver read incremental stopAt found).report.cancelled = false) :
    Gathers read p.root (p.runOver read incremental stopAt found).files found := by
  have hall : Gathers read p.root
      (Work.applyAll read incremental p.index.files (p.works found)) found := by
    rw [hempty, works_eq_map]
    have hrest := gathers_empty.applyAll hempty incremental halike (List.nil_subset _)
      (List.Subset.refl found)
    rwa [List.append_nil] at hrest
  rw [runOver_files_of_not_cancelled read incremental stopAt hdone]
  intro id e
  rw [Roster.get?_filterKeys, ← hall id e]
  split
  · rfl
  · next hid =>
    constructor
    · intro h
      cases h
    · intro hget
      obtain ⟨f, hf, rfl, -⟩ := (hall id e).mp hget
      apply absurd _ hid
      rw [List.contains_iff_mem, works_eq_map, List.map_map]
      exact List.mem_map_of_mem hf

/-! ### The last work decides -/

/-- What a work makes of the entry under its id: nothing if it is up to date or fails, else another
entry or none. -/
def Outcome.effect? : Outcome → Option (Option FileEntry)
  | .parsed e => some (some e)
  | .unsupported => some none
  | _ => none

/-- The entry of a file after its outcome: a new one, none, or the old one. -/
theorem Outcome.get?_applied_self (o : Outcome) (files : Roster String FileEntry) (id : String) :
    (o.applied files id).get? id = o.effect?.getD (files.get? id) := by
  cases o with
  | unchanged => rfl
  | failed error => rfl
  | unsupported => simp [applied, effect?, Roster.get?_erase]
  | parsed e => simp [applied, effect?, Roster.get?_put]

/-- **The last work with an id** that does something decides. -/
theorem Work.get?_applyAll_last {incremental : Bool} (files : Roster String FileEntry)
    (works : List Work) (id : String) :
    (Work.applyAll read incremental files works).get? id =
      (((works.filter (·.id = id)).filterMap fun w =>
        (w.outcome read incremental).effect?).getLast?).getD (files.get? id) := by
  induction works generalizing files with
  | nil => rfl
  | cons w works ih =>
      rw [applyAll_cons, ih]
      by_cases hid : w.id = id
      · subst hid
        rw [Outcome.get?_applied_self, List.filter_cons_of_pos (by simp)]
        cases heffect : (w.outcome read incremental).effect? with
        | none => rw [List.filterMap_cons, heffect, Option.getD_none]
        | some left =>
            rw [List.filterMap_cons, heffect]
            dsimp only
            rw [List.getLast?_cons, Option.getD_some, Option.getD_some]
      · rw [Outcome.get?_applied_of_ne _ _ (Ne.symm hid), List.filter_cons_of_neg (by simpa using hid)]

/-- A file that is read makes what reading it gives. -/
theorem Outcome.effect?_ofRead (r : Except ParseError (Option FileEntry)) :
    (Outcome.ofRead r).effect? = r.toOption := by
  cases r with
  | error f => rfl
  | ok e => cases e <;> rfl

/-- What becomes of a file that is found: it is up to date, or it is read. -/
theorem effect?_workOn {incremental : Bool} (p : Project) (f : Scan.Found) :
    ((p.workOn f).outcome read incremental).effect? =
      if incremental = true ∧ (p.index.files.get? f.id).map FileEntry.digest =
          some (Digest.fingerprint f.contents) then none
      else (readFound read p.root f).toOption := by
  rw [Work.outcome_eq, apply_ite Outcome.effect?, Outcome.effect?_ofRead]
  refine ite_congr ?_ (fun _ => rfl) fun _ => rfl
  rw [Bool.and_eq_true, beq_iff_eq]
  rfl

end Concordance.Project
