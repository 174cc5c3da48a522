import Concordance.Project.Run
import Concordance.Proofs.Roster

/-!
# What a run does to the files

A run goes through its windows, but what it does is told by the files alone: it takes the files in
order and stops after some of them, and a run that was not cancelled has taken them all
(`runOver_files_of_not_cancelled`).

An incremental run and a full run give the same files if every entry that the incremental run keeps
is the one that the full run would read again (`Work.applyAll_incremental_eq_full`).
-/

namespace Concordance.Project

variable (read : FileReader) (incremental : Bool) (total : Nat) (stopAt : Option Nat)

/-- The files after what became of one of them was merged. -/
def Outcome.applied (files : Roster String FileEntry) (id : String) :
    Outcome → Roster String FileEntry
  | .unchanged => files
  | .unsupported => files.erase id
  | .parsed e => files.put id e
  | .failed _ => files

/-- The files after some works were done one after the other. -/
def Work.applyAll (files : Roster String FileEntry) (works : List Work) :
    Roster String FileEntry :=
  works.foldl (fun files w => (w.outcome read incremental).applied files w.id) files

theorem Work.applyAll_cons (files : Roster String FileEntry) (w : Work) (works : List Work) :
    Work.applyAll read incremental files (w :: works) =
      Work.applyAll read incremental ((w.outcome read incremental).applied files w.id) works :=
  rfl

/-- Only what was read is merged. -/
theorem Work.read_of_outcome_parsed {w : Work} {e : FileEntry}
    (h : w.outcome read incremental = .parsed e) :
    read w.path w.contents w.id = .ok (some e) := by
  unfold Work.outcome at h
  split at h
  · cases h
  · split at h
    · cases h
    · next e' hread => cases h; exact hread
    · cases h

namespace Run

/-- Merging changes the files as the outcome says. -/
theorem files_merge (r : Run) (id : String) (o : Outcome) :
    (r.merge id o).files = o.applied r.files id := by
  cases o <;> rfl

theorem done_merge (r : Run) (id : String) (o : Outcome) : (r.merge id o).done = r.done := by
  cases o <;> rfl

theorem cancelled_merge (r : Run) (id : String) (o : Outcome) :
    (r.merge id o).report.cancelled = r.report.cancelled := by
  cases o <;> rfl

theorem stopped_merge (r : Run) (id : String) (o : Outcome) :
    (r.merge id o).stopped = r.stopped := by
  cases o <;> rfl

theorem files_step (r : Run) (w : Work) :
    (r.step read incremental total stopAt w).files =
      (w.outcome read incremental).applied r.files w.id :=
  files_merge r w.id _

/-- Doing works merges them one after the other. -/
theorem files_foldl_step (works : List Work) (r : Run) :
    (works.foldl (step read incremental total stopAt) r).files =
      Work.applyAll read incremental r.files works := by
  induction works generalizing r with
  | nil => rfl
  | cons w works ih =>
      rw [List.foldl_cons, ih, files_step]
      rfl

/-- Each file counts as done once. -/
theorem done_foldl_step (works : List Work) (r : Run) :
    (works.foldl (step read incremental total stopAt) r).done = r.done + works.length := by
  induction works generalizing r with
  | nil => rfl
  | cons w works ih =>
      rw [List.foldl_cons, ih, step, List.length_cons]
      dsimp only
      rw [done_merge]
      omega

/-- A run that nobody stops is neither stopped nor cancelled by its works. -/
theorem not_stopped_foldl_step (works : List Work) (r : Run) (hstop : r.stopped = false)
    (hcancel : r.report.cancelled = false) :
    (works.foldl (step read incremental total none) r).stopped = false ∧
      (works.foldl (step read incremental total none) r).report.cancelled = false := by
  induction works generalizing r with
  | nil => exact ⟨hstop, hcancel⟩
  | cons w works ih =>
      rw [List.foldl_cons]
      apply ih
      · rw [step]
        dsimp only
        rw [stopped_merge, hstop]
        rfl
      · rw [step]
        dsimp only
        rw [cancelled_merge, hcancel]

/-- **Windows.** A run through windows does the works at their front; it does them all unless it
was stopped. -/
theorem foldl_window_eq_foldl_step (windows : List (List Work)) (r : Run) :
    ∃ works, works <+: windows.flatten ∧
      windows.foldl (window read incremental total stopAt) r =
        works.foldl (step read incremental total stopAt) r ∧
      ((windows.foldl (window read incremental total stopAt) r).stopped = false →
        works = windows.flatten) := by
  induction windows generalizing r with
  | nil => exact ⟨[], List.nil_prefix, rfl, fun _ => rfl⟩
  | cons first windows ih =>
      rw [List.foldl_cons, List.flatten_cons, window]
      by_cases hr : r.stopped
      · rw [if_pos hr]
        have hstay : ∀ ws : List (List Work),
            ws.foldl (window read incremental total stopAt) r = r := by
          intro ws
          induction ws with
          | nil => rfl
          | cons w ws ihw => rw [List.foldl_cons, window, if_pos hr, ihw]
        refine ⟨[], List.nil_prefix, hstay windows, ?_⟩
        rw [hstay windows, hr]
        exact fun h => by cases h
      · rw [if_neg hr]
        obtain ⟨works, hprefix, heq, hall⟩ :=
          ih (first.foldl (step read incremental total stopAt) r)
        refine ⟨first ++ works, List.prefix_append_right_inj first |>.mpr hprefix, ?_, ?_⟩
        · rw [heq, List.foldl_append]
        · exact fun h => by rw [hall h]

end Run

/-- The pieces of a list put together are the list. -/
theorem flatten_pieces {α : Type} (n : Nat) (l : List α) : (pieces n l).flatten = l := by
  fun_induction pieces n l with
  | case1 => rfl
  | case2 a rest ih => simp [ih]

/-- A run before its first file. -/
def startRun (p : Project) : Run :=
  { files := p.index.files, stopped := stopAt == some 0 }

/-- A run does the works at the front of its list, all of them unless it was stopped, and ends. -/
theorem runOver_eq_finish (p : Project) (found : List Scan.Found) :
    ∃ works, works <+: p.works found ∧
      p.runOver read incremental stopAt found =
        (works.foldl (Run.step read incremental (p.works found).length stopAt)
          (p.startRun stopAt)).finish ((p.works found).map Work.id) ∧
      ((works.foldl (Run.step read incremental (p.works found).length stopAt)
          (p.startRun stopAt)).stopped = false → works = p.works found) := by
  obtain ⟨works, hprefix, heq, hall⟩ :=
    Run.foldl_window_eq_foldl_step read incremental (p.works found).length stopAt
      (pieces (windowSize p.settings.indexing.workers - 1) (p.works found)) (p.startRun stopAt)
  rw [flatten_pieces] at hprefix hall
  rw [heq] at hall
  refine ⟨works, hprefix, ?_, hall⟩
  rw [← heq]
  rfl

/-- A run that was not cancelled has done every work and kept the files that were found. -/
theorem runOver_files_of_not_cancelled {p : Project} {found : List Scan.Found}
    (h : (p.runOver read incremental stopAt found).report.cancelled = false) :
    (p.runOver read incremental stopAt found).files =
      (Work.applyAll read incremental p.index.files (p.works found)).filterKeys
        ((p.works found).map Work.id).contains := by
  obtain ⟨works, hprefix, heq, hall⟩ := runOver_eq_finish read incremental stopAt p found
  have hfiles := Run.files_foldl_step read incremental (p.works found).length stopAt works
    (p.startRun stopAt)
  have hdone := Run.done_foldl_step read incremental (p.works found).length stopAt works
    (p.startRun stopAt)
  rw [heq, Run.finish] at h ⊢
  split at h
  · cases h
  · next hgo =>
    rw [if_neg hgo]
    -- a stopped run goes on to prune only if no work was left
    have hworks : works = p.works found := by
      by_cases hstop : (works.foldl (Run.step read incremental (p.works found).length stopAt)
          (p.startRun stopAt)).stopped
      · rw [hstop, Bool.true_and, decide_eq_true_eq, hdone, List.length_map] at hgo
        exact hprefix.eq_of_length_le (by simpa [startRun] using hgo)
      · exact hall (by simpa using hstop)
    change Roster.filterKeys _ (Run.files _) = _
    rw [hfiles, hworks]
    rfl

/-- A run that nobody stops is not cancelled. -/
theorem not_cancelled_runOver (p : Project) (found : List Scan.Found) :
    (p.runOver read incremental none found).report.cancelled = false := by
  obtain ⟨works, -, heq, -⟩ := runOver_eq_finish read incremental none p found
  obtain ⟨hstop, hcancel⟩ := Run.not_stopped_foldl_step read incremental (p.works found).length
    works (p.startRun none) rfl rfl
  rw [heq, Run.finish, hstop]
  exact hcancel

/-- Whatever a run leaves under an id, it left there when it did the last of its works. -/
theorem get?_of_runOver (p : Project) (found : List Scan.Found) :
    ∃ works, works <+: p.works found ∧
      ∀ id e, (p.runOver read incremental stopAt found).files.get? id = some e →
        (Work.applyAll read incremental p.index.files works).get? id = some e := by
  obtain ⟨works, hprefix, heq, -⟩ := runOver_eq_finish read incremental stopAt p found
  have hfiles := Run.files_foldl_step read incremental (p.works found).length stopAt works
    (p.startRun stopAt)
  refine ⟨works, hprefix, ?_⟩
  intro id e h
  rw [heq, Run.finish] at h
  split at h
  · exact hfiles ▸ h
  · change (Roster.filterKeys _ (Run.files _)).get? id = some e at h
    rw [Roster.get?_filterKeys, hfiles] at h
    split at h
    · exact h
    · cases h

/-- Merging a file leaves the entries of the others alone. -/
theorem Outcome.get?_applied_of_ne (o : Outcome) (files : Roster String FileEntry)
    {id id' : String} (h : id' ≠ id) : (o.applied files id).get? id' = files.get? id' := by
  cases o with
  | unchanged => rfl
  | unsupported => rw [applied, Roster.get?_erase, if_neg h]
  | parsed e => rw [applied, Roster.get?_put, if_neg h]
  | failed e => rfl

/-- **Where entries come from.** An entry after some works was there before or was read by one of
them. -/
theorem Work.get?_applyAll {files : Roster String FileEntry} {works : List Work} {id : String}
    {e : FileEntry} (h : (Work.applyAll read incremental files works).get? id = some e) :
    files.get? id = some e ∨
      ∃ w ∈ works, w.id = id ∧ read w.path w.contents w.id = .ok (some e) := by
  induction works generalizing files with
  | nil => exact Or.inl h
  | cons w works ih =>
      rw [applyAll_cons] at h
      rcases ih h with hbefore | ⟨v, hv, hread⟩
      · by_cases hid : id = w.id
        · subst hid
          cases ho : w.outcome read incremental with
          | unchanged => exact Or.inl (by simpa [ho, Outcome.applied] using hbefore)
          | failed f => exact Or.inl (by simpa [ho, Outcome.applied] using hbefore)
          | unsupported =>
              rw [ho, Outcome.applied, Roster.get?_erase, if_pos rfl] at hbefore
              cases hbefore
          | parsed e' =>
              rw [ho, Outcome.applied, Roster.get?_put, if_pos rfl] at hbefore
              cases hbefore
              exact Or.inr ⟨w, List.mem_cons_self, rfl, read_of_outcome_parsed read incremental ho⟩
        · rw [Outcome.get?_applied_of_ne _ _ hid] at hbefore
          exact Or.inl hbefore
      · exact Or.inr ⟨v, List.mem_cons_of_mem _ hv, hread⟩

/-- Contents that differ from the stored ones are looked at in the same way by both kinds of runs. -/
theorem Work.outcome_of_changed {w : Work}
    (h : w.stored ≠ some (Digest.fingerprint w.contents)) :
    w.outcome read true = w.outcome read false := by
  simp [Work.outcome, h]

/-- **An incremental run does what a full run does**, if every entry that it keeps is the one that
would be read again, and no id is found with two different contents. -/
theorem Work.applyAll_incremental_eq_full {files : Roster String FileEntry} {works : List Work}
    (hkept : ∀ w ∈ works, w.stored = some (Digest.fingerprint w.contents) →
      ∃ e, read w.path w.contents w.id = .ok (some e) ∧ files.get? w.id = some e)
    (hone : ∀ w ∈ works, ∀ v ∈ works, w.id = v.id →
      w.contents = v.contents ∧ w.stored = v.stored) :
    Work.applyAll read true files works = Work.applyAll read false files works := by
  induction works generalizing files with
  | nil => rfl
  | cons w works ih =>
      have hone' : ∀ v ∈ works, ∀ u ∈ works, v.id = u.id →
          v.contents = u.contents ∧ v.stored = u.stored := fun v hv u hu =>
        hone v (List.mem_cons_of_mem _ hv) u (List.mem_cons_of_mem _ hu)
      rw [applyAll_cons, applyAll_cons]
      by_cases hw : w.stored = some (Digest.fingerprint w.contents)
      · obtain ⟨e, hread, hget⟩ := hkept w List.mem_cons_self hw
        have hinc : w.outcome read true = .unchanged := by simp [Work.outcome, hw]
        have hfull : w.outcome read false = .parsed e := by simp [Work.outcome, hread]
        -- the full run writes what already stands there
        have hsame : files.put w.id e = files := Roster.put_get?_self hget
        rw [hinc, hfull, Outcome.applied, Outcome.applied, hsame]
        exact ih (fun v hv => hkept v (List.mem_cons_of_mem _ hv)) hone'
      · rw [Work.outcome_of_changed read hw]
        refine ih (fun v hv hstored => ?_) hone'
        obtain ⟨e, hread, hget⟩ := hkept v (List.mem_cons_of_mem _ hv) hstored
        refine ⟨e, hread, ?_⟩
        have hid : v.id ≠ w.id := by
          intro hid
          obtain ⟨hcontents, hst⟩ := hone v (List.mem_cons_of_mem _ hv) w List.mem_cons_self hid
          exact hw (by rw [← hst, ← hcontents, hstored])
        rw [Outcome.get?_applied_of_ne _ _ hid, hget]

end Concordance.Project
