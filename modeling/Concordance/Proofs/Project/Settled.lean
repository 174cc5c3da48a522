import Concordance.Proofs.Project.Account

/-!
# Runs that find nothing to do

A run that comes to its end settles the index: an incremental run that finds the same files
afterwards has nothing to do. It takes each file as it was left, for one of three reasons. The entry
bears the fingerprint of the file; or the file can have no entry, and has none; or the file could
not be read, and it cannot be read now (`Work.outcome_again`).

The main statement is `indexAll_again`. It asks nothing of the entries that were stored before the
first run, and nothing of the files but that no two of them have one id.
-/

namespace Concordance

/-- Every entry that is read notes the fingerprint of what it was read from. -/
def FileReader.Fingerprints (read : FileReader) : Prop :=
  ∀ {path : Path} {contents : Bytes} {id : String} {e : FileEntry},
    read path contents id = .ok (some e) → e.digest = Digest.fingerprint contents

/-- Nothing is lost where nothing was. -/
theorem Roster.erase_of_get?_eq_none {κ α : Type} [DecidableEq κ] {r : Roster κ α} {k : κ}
    (h : r.get? k = none) : r.erase k = r := by
  ext1
  apply List.filter_eq_self.mpr
  intro entry hentry
  have hne : entry.1 ≠ k := by
    rintro rfl
    rw [get?_eq_some_iff.mpr hentry] at h
    cases h
  simpa using hne

/-- A roster all of whose keys pass is what is left of it. -/
theorem Roster.filterKeys_of_forall {κ α : Type} {r : Roster κ α} {p : κ → Bool}
    (h : ∀ k ∈ r.keys, p k = true) : r.filterKeys p = r := by
  ext1
  apply List.filter_eq_self.mpr
  intro entry hentry
  exact h entry.1 (List.mem_map_of_mem hentry)

/-- The keys that are left pass. -/
theorem Roster.of_mem_keys_filterKeys {κ α : Type} {r : Roster κ α} {p : κ → Bool} {k : κ}
    (h : k ∈ (r.filterKeys p).keys) : p k = true := by
  obtain ⟨entry, hentry, rfl⟩ := List.mem_map.mp h
  exact (List.mem_filter.mp hentry).2

namespace Project

variable {read : FileReader} {incremental : Bool}

/-! ### What a file is left as -/

/-- Works that all leave the files as they are leave them so together. -/
theorem Work.applyAll_of_forall {files : Roster String FileEntry} {works : List Work}
    (h : ∀ w ∈ works, (w.outcome read incremental).applied files w.id = files) :
    Work.applyAll read incremental files works = files := by
  induction works with
  | nil => rfl
  | cons w works ih =>
      obtain ⟨hw, hworks⟩ := List.forall_mem_cons.mp h
      rw [applyAll_cons, hw]
      exact ih hworks

/-- What a work leaves under its own id depends on what stood there only. -/
theorem Outcome.get?_applied_congr (o : Outcome) {files files' : Roster String FileEntry}
    {id : String} (h : files.get? id = files'.get? id) :
    (o.applied files id).get? id = (o.applied files' id).get? id := by
  cases o with
  | unchanged => exact h
  | failed f => exact h
  | unsupported => simp only [applied, Roster.get?_erase, if_true]
  | parsed e => simp only [applied, Roster.get?_put, if_true]

/-- **What a file is left as.** If no two works have one id, what stands under an id afterwards is
what its own work has left there. -/
theorem Work.get?_applyAll_of_mem {files : Roster String FileEntry} {works : List Work}
    (hdistinct : (works.map Work.id).Nodup) {w : Work} (hw : w ∈ works) :
    (Work.applyAll read incremental files works).get? w.id =
      ((w.outcome read incremental).applied files w.id).get? w.id := by
  induction works generalizing files with
  | nil => cases hw
  | cons v works ih =>
      rw [List.map_cons, List.nodup_cons] at hdistinct
      obtain ⟨hv, hrest⟩ := hdistinct
      rw [applyAll_cons]
      rcases List.mem_cons.mp hw with rfl | hw
      · exact Work.get?_applyAll_of_not_mem read incremental hv
      · have hne : w.id ≠ v.id := fun heq => hv (heq ▸ List.mem_map_of_mem hw)
        rw [ih hrest hw]
        -- the work of another file has not touched what this one looks at
        exact Outcome.get?_applied_congr _ (Outcome.get?_applied_of_ne _ _ hne)

/-- What may become of a file that a run has left: its entry is up to date, it has none and gets
none, or it fails as it did before. -/
inductive Outcome.Again (before : Outcome) (left : Option FileEntry) : Outcome → Prop
  | unchanged : Again before left .unchanged
  | unsupported (hleft : left = none) : Again before left .unsupported
  | failed (error : ParseError) (hbefore : before = .failed error) :
      Again before left (.failed error)

/-- **One file again.** Let a file be left as its work has left it. Looked at again, with the same
contents and the fingerprint of what was left, it is up to date, has no entry, or fails as it did. -/
theorem Work.outcome_again (hread : read.Fingerprints) {files : Roster String FileEntry}
    {left : Option FileEntry} {w : Work}
    (hstored : w.stored = (files.get? w.id).map FileEntry.digest)
    (hleft : left = ((w.outcome read incremental).applied files w.id).get? w.id) :
    (w.outcome read incremental).Again left
      ({ w with stored := left.map FileEntry.digest }.outcome read true) := by
  by_cases hcurrent : left.map FileEntry.digest = some (Digest.fingerprint w.contents)
  · have hskip : { w with stored := left.map FileEntry.digest }.outcome read true = .unchanged := by
      simp [Work.outcome, hcurrent]
    rw [hskip]
    exact .unchanged
  · -- a file that is not up to date was neither kept nor read before
    have hagain : { w with stored := left.map FileEntry.digest }.outcome read true =
        Outcome.ofRead (read w.path w.contents w.id) := by
      rw [Work.outcome_eq, if_neg (by simpa using hcurrent)]
    have hfirst : w.outcome read incremental = Outcome.ofRead (read w.path w.contents w.id) := by
      rw [Work.outcome_eq] at hleft ⊢
      by_cases hkept : (incremental && w.stored == some (Digest.fingerprint w.contents)) = true
      · rw [if_pos hkept] at hleft
        rw [Bool.and_eq_true, beq_iff_eq, hstored] at hkept
        apply absurd ?_ hcurrent
        rw [hleft]
        exact hkept.2
      · rw [if_neg hkept]
    rw [hfirst] at hleft ⊢
    rw [hagain]
    cases hresult : read w.path w.contents w.id with
    | error f => exact .failed f rfl
    | ok result =>
        rw [hresult] at hleft
        cases result with
        | none =>
            refine .unsupported ?_
            rw [hleft]
            exact (Roster.get?_erase files w.id w.id).trans (if_pos rfl)
        | some e =>
            have hput : left = some e := by
              rw [hleft]
              exact (Roster.get?_put files w.id w.id e).trans (if_pos rfl)
            apply absurd ?_ hcurrent
            rw [hput, Option.map_some, hread hresult]

/-- A file that is looked at again is left as it is. -/
theorem Outcome.Again.applied_eq {before o : Outcome} {files : Roster String FileEntry}
    {id : String} (h : before.Again (files.get? id) o) : o.applied files id = files := by
  cases h with
  | unchanged => rfl
  | unsupported hleft => exact Roster.erase_of_get?_eq_none hleft
  | failed error hbefore => rfl

/-- A file that is looked at again is not indexed. -/
theorem Outcome.Again.isIndexed {before o : Outcome} {left : Option FileEntry}
    (h : before.Again left o) : o.isIndexed = false := by
  cases h <;> rfl

/-! ### What a run reports -/

/-- Of two ways to report on the same items, one that reports nothing but what the other does
reports a part of it. -/
theorem filterMap_sublist_filterMap {α β : Type} {f g : α → Option β} {l : List α}
    (h : ∀ a ∈ l, f a = none ∨ f a = g a) : (l.filterMap f).Sublist (l.filterMap g) := by
  induction l with
  | nil => exact .slnil
  | cons a l ih =>
      obtain ⟨ha, hl⟩ := List.forall_mem_cons.mp h
      have ih := ih hl
      rw [List.filterMap_cons, List.filterMap_cons]
      rcases ha with hnone | hsame
      · rw [hnone]
        cases g a with
        | none => exact ih
        | some b => exact ih.cons b
      · rw [hsame]
        cases g a with
        | none => exact ih
        | some b => exact ih.cons_cons b

/-- **What a run does**, whatever the number of workers: it does the works at the front of its
list, all of them unless it is cancelled, and accounts for those that it did. -/
theorem exists_account (read : FileReader) (incremental : Bool) (p : Project)
    (stopAt : Option Nat) (found : List Scan.Found) :
    ∃ works r, works <+: p.works found ∧
      Run.Account read incremental (p.works found).length (p.startRun stopAt) r works ∧
      r.files = Work.applyAll read incremental p.index.files works ∧
      p.runOver read incremental stopAt found = r.finish ((p.works found).map Work.id) ∧
      ((p.runOver read incremental stopAt found).report.cancelled = false →
        works = p.works found) := by
  obtain ⟨works, hfront, heq, hall⟩ := runOver_eq_finish read incremental stopAt p found
  refine ⟨works, _, hfront, Run.account_foldl_step read incremental _ stopAt works _,
    Run.files_foldl_step read incremental _ stopAt works _, heq, ?_⟩
  intro hcancelled
  rw [heq, Run.finish] at hcancelled
  split at hcancelled
  · cases hcancelled
  · next hgo =>
    by_cases hstopped : (works.foldl (Run.step read incremental (p.works found).length stopAt)
        (p.startRun stopAt)).stopped
    · have hdone := Run.done_foldl_step read incremental (p.works found).length stopAt works
        (p.startRun stopAt)
      rw [hstopped, Bool.true_and, decide_eq_true_eq, hdone, List.length_map] at hgo
      apply hfront.eq_of_length_le
      simpa [startRun] using hgo
    · exact hall (by simpa using hstopped)

/-- The end of a run changes nothing of what it reports on its files. -/
theorem Run.report_finish (r : Run) (found : List String) :
    (r.finish found).report.indexed = r.report.indexed ∧
      (r.finish found).report.errors = r.report.errors := by
  unfold finish
  split <;> exact ⟨rfl, rfl⟩

/-- The errors of a run that is not cancelled are those of all its works. -/
theorem errors_of_not_cancelled {p : Project} {stopAt : Option Nat} {found : List Scan.Found}
    (h : (p.runOver read incremental stopAt found).report.cancelled = false) :
    (p.runOver read incremental stopAt found).report.errors =
      (p.works found).filterMap (Work.complaint? read incremental) := by
  obtain ⟨works, r, -, haccount, -, hrun, hall⟩ := exists_account read incremental p stopAt found
  have hworks := hall h
  rw [hrun, (r.report_finish _).2, haccount.errors, hworks]
  rfl

/-- A run whose works all leave the files as they are, in an index of files found only, leaves them
as they are and drops nothing. -/
theorem Run.finish_of_settled {r : Run} {found : List String}
    (hkeys : ∀ id ∈ r.files.keys, id ∈ found) (hremoved : r.report.removed = 0) :
    (r.finish found).files = r.files ∧ (r.finish found).report.removed = 0 := by
  unfold finish
  split
  · exact ⟨rfl, hremoved⟩
  · have hall : ∀ id ∈ r.files.keys, found.contains id = true := by
      intro id hid
      simpa using hkeys id hid
    refine ⟨Roster.filterKeys_of_forall hall, ?_⟩
    rw [removed_prune, List.countP_eq_zero]
    intro id hid
    simpa using hkeys id hid

/-- **The second run.** Let an index have entries of files found only, and let every file found be
one that a run has left. An incremental run indexes nothing, removes nothing, and leaves the files
as they are. -/
theorem runOver_again {q : Project} {found : List Scan.Found} (stopAt : Option Nat)
    (hkeys : ∀ id ∈ q.index.files.keys, id ∈ (q.works found).map Work.id)
    (hagain : ∀ w ∈ q.works found,
      ∃ before, Outcome.Again before (q.index.files.get? w.id) (w.outcome read true)) :
    let run := q.runOver read true stopAt found
    run.report.indexed = 0 ∧ run.report.removed = 0 ∧ run.files = q.index.files ∧
      run.report.errors.Sublist ((q.works found).filterMap (Work.complaint? read true)) := by
  intro run
  obtain ⟨works, r, hfront, haccount, hfiles, hrun, -⟩ := exists_account read true q stopAt found
  have hsame : r.files = q.index.files := by
    rw [hfiles]
    apply Work.applyAll_of_forall
    intro w hw
    obtain ⟨before, hw⟩ := hagain w (hfront.subset hw)
    exact hw.applied_eq
  have hindexed : r.report.indexed = 0 := by
    have hnone : Work.count read true Outcome.isIndexed works = 0 := by
      apply List.countP_eq_zero.mpr
      intro w hw
      obtain ⟨before, hw⟩ := hagain w (hfront.subset hw)
      rw [hw.isIndexed]
      exact Bool.false_ne_true
    rw [haccount.indexed, hnone]
    rfl
  obtain ⟨hend, hremoved⟩ := Run.finish_of_settled (hsame ▸ hkeys) haccount.removed
  have herrors : r.report.errors = works.filterMap (Work.complaint? read true) := haccount.errors
  rw [show run = r.finish ((q.works found).map Work.id) from hrun]
  refine ⟨(r.report_finish _).1.trans hindexed, hremoved, hend.trans hsame, ?_⟩
  rw [(r.report_finish _).2, herrors]
  exact hfront.sublist.filterMap _

/-- **A file that a run has left.** What a run that was not cancelled leaves of a file, the next one
takes as it is. -/
theorem workOn_again (hread : read.Fingerprints) {p q : Project} {found : List Scan.Found}
    (hdistinct : (found.map Scan.Found.id).Nodup) (hroot : q.root = p.root)
    (hfiles : q.index.files = (Work.applyAll read incremental p.index.files
      (p.works found)).filterKeys ((p.works found).map Work.id).contains)
    {f : Scan.Found} (hf : f ∈ found) :
    ((p.workOn f).outcome read incremental).Again (q.index.files.get? f.id)
      ((q.workOn f).outcome read true) := by
  have hmem : p.workOn f ∈ p.works found := List.mem_map_of_mem hf
  have hids : ((p.works found).map Work.id).Nodup := by
    rw [works_eq_map, List.map_map]
    exact hdistinct
  have hleft : q.index.files.get? f.id =
      (((p.workOn f).outcome read incremental).applied p.index.files f.id).get? f.id := by
    have hfound : ((p.works found).map Work.id).contains f.id = true :=
      List.contains_iff_mem.mpr (List.mem_map_of_mem hmem)
    rw [hfiles, Roster.get?_filterKeys, if_pos hfound]
    exact Work.get?_applyAll_of_mem hids hmem
  have hwork : q.workOn f =
      { p.workOn f with stored := (q.index.files.get? f.id).map FileEntry.digest } := by
    rw [workOn, workOn, hroot]
  rw [hwork]
  exact Work.outcome_again hread rfl hleft

/-- A failure that happened before is reported as before. -/
theorem complaint?_again {p q : Project} {f : Scan.Found} {left : Option FileEntry}
    (h : ((p.workOn f).outcome read incremental).Again left ((q.workOn f).outcome read true)) :
    (q.workOn f).complaint? read true = none ∨
      (q.workOn f).complaint? read true = (p.workOn f).complaint? read incremental := by
  rw [Work.complaint?, Work.complaint?]
  generalize (q.workOn f).outcome read true = o at h
  cases h with
  | unchanged => exact .inl rfl
  | unsupported hleft => exact .inl rfl
  | failed error hbefore =>
      rw [hbefore]
      exact .inr rfl

/-- The files that a run on a host finds. -/
def finds (p : Project) (h : Host) : Except ScanFault (List Scan.Found) :=
  (p.scanner (p.seen h)).map fun scanner => scanner.scan (p.seen h)

/-- Files are found by the scanner of the project. -/
theorem exists_scanner_of_finds {p : Project} {h : Host} {found : List Scan.Found}
    (hfound : p.finds h = .ok found) :
    ∃ scanner, p.scanner (p.seen h) = .ok scanner ∧ scanner.scan (p.seen h) = found := by
  rw [finds] at hfound
  cases hscanner : p.scanner (p.seen h) with
  | error f =>
      rw [hscanner] at hfound
      cases hfound
  | ok scanner =>
      rw [hscanner] at hfound
      exact ⟨scanner, rfl, Except.ok.inj hfound⟩

/-- A run under the lock that finds some files is the run over them. -/
theorem indexAll_of_finds (read : FileReader) (incremental : Bool) {p : Project} {h : Host}
    {found : List Scan.Found} (now : Number)
    (stopAt : Option Nat) (hlock : (h.acquire p.writer (lockFile p.indexFile)).2 = .ok ())
    (hfound : p.finds h = .ok found) :
    let run := p.runOver read incremental stopAt found
    (p.indexAll h read now incremental stopAt).answer = .ok (run.report, run.notes) ∧
      (p.indexAll h read now incremental stopAt).project.index.files = run.files ∧
      (p.indexAll h read now incremental stopAt).project.root = p.root := by
  intro run
  obtain ⟨scanner, hscanner, rfl⟩ := exists_scanner_of_finds hfound
  obtain ⟨hanswer, hfiles⟩ := indexAll_eq_runOver read incremental now stopAt hlock hscanner
  refine ⟨hanswer, hfiles, ?_⟩
  rw [indexAll, (guarded_of_granted _ hlock).1, hscanner]
  rfl

/-- A run that answers had the lock. -/
theorem acquire_of_indexAll {p : Project} {h : Host} {now : Number} {stopAt : Option Nat}
    {answer : Report × List Note}
    (hanswer : (p.indexAll h read now incremental stopAt).answer = .ok answer) :
    (h.acquire p.writer (lockFile p.indexFile)).2 = .ok () := by
  cases hlock : (h.acquire p.writer (lockFile p.indexFile)).2 with
  | ok _ => rfl
  | error f =>
      rw [indexAll, (guarded_of_refused _ hlock).2.2] at hanswer
      cases hanswer

/-- **The same files again.** Let a run of either kind come to its end, whatever was stored before,
and let no two of the files that it finds have one id. If an incremental run then finds the same
files, it indexes none of them and removes nothing. The index stays as it is, the order of its files
included, and the errors are among those of the first run, in the same order. -/
theorem indexAll_again (hread : read.Fingerprints) {p : Project} {h h' : Host}
    {found : List Scan.Found} {now now' : Number} {stopAt stopAt' : Option Nat} {report : Report}
    {notes : List Note} (hfound : p.finds h = .ok found)
    (hdistinct : (found.map Scan.Found.id).Nodup)
    (hanswer : (p.indexAll h read now incremental stopAt).answer = .ok (report, notes))
    (hdone : report.cancelled = false) {q : Project}
    (hq : q = (p.indexAll h read now incremental stopAt).project)
    (hsame : q.finds h' = .ok found)
    (hlock : (h'.acquire q.writer (lockFile q.indexFile)).2 = .ok ()) :
    ∃ report' notes', (q.indexAll h' read now' true stopAt').answer = .ok (report', notes') ∧
      report'.indexed = 0 ∧ report'.removed = 0 ∧
      (q.indexAll h' read now' true stopAt').project.index.files = q.index.files ∧
      report'.errors.Sublist report.errors := by
  obtain ⟨hanswer', hfiles, hroot⟩ :=
    indexAll_of_finds read incremental now stopAt (acquire_of_indexAll hanswer) hfound
  rw [hanswer] at hanswer'
  have hreport : report = (p.runOver read incremental stopAt found).report :=
    congrArg Prod.fst (Except.ok.inj hanswer')
  rw [← hq] at hfiles hroot
  rw [hreport] at hdone
  rw [runOver_files_of_not_cancelled read incremental stopAt hdone] at hfiles
  have hagain : ∀ f ∈ found, _ := fun f hf => workOn_again hread hdistinct hroot hfiles hf
  have hkeys : ∀ id ∈ q.index.files.keys, id ∈ (q.works found).map Work.id := by
    intro id hid
    rw [hfiles] at hid
    simpa [works] using Roster.of_mem_keys_filterKeys hid
  have hworks : ∀ w ∈ q.works found,
      ∃ before, Outcome.Again before (q.index.files.get? w.id) (w.outcome read true) := by
    intro w hw
    obtain ⟨f, hf, rfl⟩ := List.mem_map.mp hw
    exact ⟨_, hagain f hf⟩
  obtain ⟨hindexed, hremoved, hleft, herrors⟩ := runOver_again stopAt' hkeys hworks
  obtain ⟨hanswer₂, hfiles₂, -⟩ :=
    indexAll_of_finds read true now' stopAt' hlock hsame
  refine ⟨_, _, hanswer₂, hindexed, hremoved, hfiles₂.trans hleft, herrors.trans ?_⟩
  rw [hreport, errors_of_not_cancelled hdone, works_eq_map, works_eq_map, List.filterMap_map,
    List.filterMap_map]
  exact filterMap_sublist_filterMap fun f hf => complaint?_again (hagain f hf)

section Mixed

/-- A module that is read, one that cannot be read, and one in a language without its grammar. -/
def mixedHost : Host :=
  { disk := ⟨[("p", .folder [("a.py", .file [120]),
      ("q", .folder [("b.py", .file [33]), ("r", .folder [("c.rb", .file [])])])])]⟩ }

/-- The entries of an older time: of the last two modules, and of one that is gone. -/
def mixedEntries : Roster String FileEntry :=
  ((Roster.empty.put "q/r/c.rb" ⟨"q/r/c.rb", "ruby", "old", .zero, [], [], [], []⟩).put "gone.py"
    ⟨"gone.py", "python", "old", .zero, [], [], [], []⟩).put "q/b.py"
    ⟨"q/b.py", "python", "old", .zero, [], [], [], []⟩

/-- The project of the three modules with the older entries. -/
def mixed : Project :=
  (Project.openWith mixedHost.disk ["p"] {} none 0).withFiles mixedEntries

/-- The modules in the order of the scan. -/
def mixedFound : List Scan.Found :=
  [⟨["a.py"], "a.py", [120]⟩, ⟨["q", "b.py"], "q/b.py", [33]⟩,
    ⟨["q", "r", "c.rb"], "q/r/c.rb", []⟩]

end Mixed

end Project

end Concordance
