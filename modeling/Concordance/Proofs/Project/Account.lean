import Concordance.Parse.File
import Concordance.Proofs.Project.Incremental
import Mathlib.Algebra.Order.Floor.Div

/-!
# The account of a run

A run that is stopped finishes the window that it is in. So how many files it does depends on the
number of files after which it was stopped, rounded up to whole windows (`Run.reach`). What it
reports follows from the files that it did: a note for each of them in order, and one count, as
indexed, skipped or failed (`Run.account_foldl_step`).

The main statement is `indexAll_account`: all that a run does, for any state of the index, any disk
and any moment at which it is stopped.
-/

namespace Concordance.Project

variable (read : FileReader) (incremental : Bool) (total : Nat)

/-! ### What is counted -/

/-- Whether a file was indexed. -/
def Outcome.isIndexed : Outcome → Bool
  | .parsed _ => true
  | _ => false

/-- Whether a file was left alone: its entry is up to date, or it can have none. -/
def Outcome.isSkipped : Outcome → Bool
  | .unchanged | .unsupported => true
  | _ => false

/-- What is reported of a file that could not be read. -/
def Work.complaint? (w : Work) : Option String :=
  match w.outcome read incremental with
  | .failed e => some (w.id ++ ": " ++ e.message)
  | _ => none

/-- How many of some works end in a certain way. -/
def Work.count (is : Outcome → Bool) (works : List Work) : Nat :=
  works.countP fun w => is (w.outcome read incremental)

/-- Every work ends in one way. -/
theorem Work.count_one (w : Work) :
    (if (w.outcome read incremental).isIndexed then 1 else 0) +
      (if (w.outcome read incremental).isSkipped then 1 else 0) +
      (w.complaint? read incremental).toList.length = 1 := by
  rw [Work.complaint?]
  cases w.outcome read incremental <;> rfl

/-- Every work is counted once. -/
theorem Work.count_add (works : List Work) :
    Work.count read incremental Outcome.isIndexed works +
      Work.count read incremental Outcome.isSkipped works +
      (works.filterMap (Work.complaint? read incremental)).length = works.length := by
  induction works with
  | nil => rfl
  | cons w works ih =>
      have hone := Work.count_one read incremental w
      have hlist : ((w :: works).filterMap (Work.complaint? read incremental)).length =
          (w.complaint? read incremental).toList.length +
            (works.filterMap (Work.complaint? read incremental)).length := by
        rw [List.filterMap_cons]
        cases w.complaint? read incremental with
        | none => simp
        | some text => simp [Nat.add_comm]
      rw [hlist]
      simp only [Work.count, List.countP_cons, List.length_cons] at ih ⊢
      omega

namespace Run

/-- The account of some works: what a run has noted and counted, when it has done them after `done`
others. -/
structure Account (before after : Run) (works : List Work) : Prop where
  notes : after.notes = before.notes ++
    works.mapIdx fun i w => ⟨before.done + i + 1, total, w.id⟩
  indexed : after.report.indexed =
    before.report.indexed + Work.count read incremental Outcome.isIndexed works
  skipped : after.report.skipped =
    before.report.skipped + Work.count read incremental Outcome.isSkipped works
  errors : after.report.errors =
    before.report.errors ++ works.filterMap (Work.complaint? read incremental)
  removed : after.report.removed = before.report.removed
  cancelled : after.report.cancelled = before.report.cancelled

/-- **One file** is noted and counted. -/
theorem account_step (stopAt : Option Nat) (r : Run) (w : Work) :
    Account read incremental total r (r.step read incremental total stopAt w) [w] := by
  unfold step
  cases ho : w.outcome read incremental <;>
    constructor <;>
    simp [merge, Work.count, Work.complaint?, Outcome.isIndexed, Outcome.isSkipped, ho]

/-- Accounts are added up. -/
theorem Account.cons {before middle after : Run} {w : Work} {works : List Work}
    (hdone : middle.done = before.done + 1)
    (hfirst : Account read incremental total before middle [w])
    (hrest : Account read incremental total middle after works) :
    Account read incremental total before after (w :: works) where
  notes := by
    rw [hrest.notes, hfirst.notes, hdone, List.mapIdx_cons, List.append_assoc]
    simp only [List.mapIdx_cons, List.mapIdx_nil, List.singleton_append, Nat.add_assoc,
      Nat.add_comm 1]
  indexed := by
    rw [hrest.indexed, hfirst.indexed]
    simp only [Work.count, List.countP_cons, List.countP_nil]
    omega
  skipped := by
    rw [hrest.skipped, hfirst.skipped]
    simp only [Work.count, List.countP_cons, List.countP_nil]
    omega
  errors := by
    rw [hrest.errors, hfirst.errors, List.append_assoc, ← List.filterMap_append]
    rfl
  removed := hrest.removed.trans hfirst.removed
  cancelled := hrest.cancelled.trans hfirst.cancelled

/-- **Some files** are noted and counted one after the other. -/
theorem account_foldl_step (stopAt : Option Nat) (works : List Work) (r : Run) :
    Account read incremental total r
      (works.foldl (step read incremental total stopAt) r) works := by
  induction works generalizing r with
  | nil => exact ⟨by simp, rfl, rfl, by simp, rfl, rfl⟩
  | cons w works ih =>
      rw [List.foldl_cons]
      have hdone : (r.step read incremental total stopAt w).done = r.done + 1 := by
        rw [step]
        dsimp only
        rw [done_merge]
      exact .cons read incremental total hdone (account_step read incremental total stopAt r w)
        (ih _)

/-! ### How far a run gets -/

/-- How many of `total` files a run does in windows of a size, if it is stopped once `stopAt` files
are done: all of them, or whole windows as long as there are files. -/
def reach (stopAt : Option Nat) (size total : Nat) : Nat :=
  match stopAt with
  | none => total
  | some k => min total (size * (k ⌈/⌉ size))

/-- A run does not get beyond the last file. -/
theorem reach_le (stopAt : Option Nat) (size total : Nat) : reach stopAt size total ≤ total := by
  cases stopAt with
  | none => exact le_rfl
  | some k => exact Nat.min_le_left _ _

/-- A run is stopped from the file on after which it was to be stopped. -/
theorem stopped_foldl_step {k : Nat} (works : List Work) {r : Run}
    (h : r.stopped = decide (k ≤ r.done)) :
    (works.foldl (step read incremental total (some k)) r).stopped =
      decide (k ≤ r.done + works.length) := by
  induction works generalizing r with
  | nil => exact h
  | cons w works ih =>
      rw [List.foldl_cons, ih, List.length_cons]
      · rw [step]
        dsimp only
        rw [done_merge, Nat.add_assoc, Nat.add_comm 1]
      · rw [step]
        dsimp only
        rw [stopped_merge, done_merge, h]
        by_cases hk : k = r.done + 1
        · simp [hk]
        · by_cases hle : k ≤ r.done
          · simp [hle, Nat.le_succ_of_le hle]
          · have hlt : ¬ k ≤ r.done + 1 := by omega
            simp [hle, hlt, hk]

/-- Rounding up goes down by one window with each window that is done. -/
theorem ceilDiv_of_pos {k size : Nat} (hk : 0 < k) (hsize : 0 < size) :
    size * (k ⌈/⌉ size) = size + size * ((k - size) ⌈/⌉ size) := by
  have hround : ∀ j : Nat, j ⌈/⌉ size = (j + size - 1) / size := fun j =>
    Nat.ceilDiv_eq_add_pred_div j size
  by_cases hle : k ≤ size
  · have hone : k ⌈/⌉ size = 1 := by
      rw [hround]
      exact Nat.div_eq_of_lt_le (by omega) (by omega)
    have hzero : (k - size) ⌈/⌉ size = 0 := by
      rw [hround]
      exact Nat.div_eq_of_lt (by omega)
    rw [hone, hzero]
    omega
  · have hstep : k + size - 1 = (k - size + size - 1) + size := by omega
    rw [hround, hround, hstep, Nat.add_div_right _ hsize, Nat.mul_succ]
    omega

/-- **Windows under a stop.** A run that is to be stopped does the works of whole windows, up to the
one in which that happens. -/
theorem foldl_pieces_of_stop (n k : Nat) (works : List Work) (r : Run)
    (h : r.stopped = decide (k ≤ r.done)) :
    (pieces n works).foldl (window read incremental total (some k)) r =
      (works.take ((n + 1) * ((k - r.done) ⌈/⌉ (n + 1)))).foldl
        (step read incremental total (some k)) r := by
  induction works using pieces.induct n generalizing r with
  | case1 => simp [pieces]
  | case2 a rest ih =>
      rw [pieces, List.foldl_cons, window, h]
      by_cases hk : k ≤ r.done
      · -- nothing is done any more
        have hstay : ∀ windows : List (List Work),
            windows.foldl (window read incremental total (some k)) r = r := by
          intro windows
          induction windows with
          | nil => rfl
          | cons first windows ihw => rw [List.foldl_cons, window, h, if_pos (by simpa), ihw]
        rw [if_pos (by simpa), hstay, Nat.sub_eq_zero_of_le hk, zero_ceilDiv]
        rfl
      · rw [if_neg (by simpa using hk)]
        have hleft : 0 < k - r.done := by omega
        have hround := ceilDiv_of_pos hleft (Nat.succ_pos n)
        have htake : (a :: rest).take ((n + 1) * ((k - r.done) ⌈/⌉ (n + 1))) =
            (a :: rest.take n) ++ (rest.drop n).take
              ((n + 1) * ((k - r.done - (n + 1)) ⌈/⌉ (n + 1))) := by
          rw [hround, List.take_add]
          rfl
        rw [htake, List.foldl_append]
        have hlater := stopped_foldl_step read incremental total (a :: rest.take n) h
        have hdone := done_foldl_step read incremental total (some k) (a :: rest.take n) r
        rw [ih _ (by rw [hlater, hdone]), hdone]
        by_cases hfull : n ≤ rest.length
        · rw [List.length_cons, List.length_take, Nat.min_eq_left hfull, Nat.sub_sub]
        · -- the last window: nothing is left of the works
          rw [List.drop_eq_nil_of_le (by omega), List.take_nil, List.take_nil]

/-- **Windows without a stop.** A run that nobody stops does all works. -/
theorem foldl_pieces_of_no_stop (n : Nat) (works : List Work) (r : Run)
    (h : r.stopped = false) (hcancel : r.report.cancelled = false) :
    (pieces n works).foldl (window read incremental total none) r =
      works.foldl (step read incremental total none) r := by
  obtain ⟨done, hprefix, heq, hall⟩ :=
    foldl_window_eq_foldl_step read incremental total none (pieces n works) r
  have hgo := (not_stopped_foldl_step read incremental total done r h hcancel).1
  rw [heq, hall (heq ▸ hgo), flatten_pieces]

/-- **How far a run gets.** A run from the start does the works that it reaches. -/
theorem foldl_pieces_eq (p : Project) (stopAt : Option Nat) (n : Nat) (works : List Work) :
    (pieces n works).foldl (window read incremental total stopAt) (p.startRun stopAt) =
      (works.take (reach stopAt (n + 1) works.length)).foldl
        (step read incremental total stopAt) (p.startRun stopAt) := by
  cases stopAt with
  | none =>
      rw [foldl_pieces_of_no_stop read incremental total n works _ rfl rfl, reach, List.take_length]
  | some k =>
      have hstart : (p.startRun (some k)).stopped = decide (k ≤ (p.startRun (some k)).done) := by
        cases k <;> rfl
      rw [foldl_pieces_of_stop read incremental total n k works _ hstart, reach, Nat.min_comm,
        ← List.take_eq_take_min]
      rfl

/-- A run that does not get to its end was stopped. -/
theorem stopped_of_reach_lt (p : Project) {stopAt : Option Nat} {size : Nat} (hsize : 0 < size)
    {works : List Work} (h : reach stopAt size works.length < works.length) :
    ((works.take (reach stopAt size works.length)).foldl
      (step read incremental total stopAt) (p.startRun stopAt)).stopped = true := by
  cases stopAt with
  | none => exact absurd h (Nat.lt_irrefl _)
  | some k =>
      have hstart : (p.startRun (some k)).stopped = decide (k ≤ (p.startRun (some k)).done) := by
        cases k <;> rfl
      have hround : k ≤ size * (k ⌈/⌉ size) := le_smul_ceilDiv hsize
      have hlength : (works.take (reach (some k) size works.length)).length =
          reach (some k) size works.length := List.length_take_of_le (reach_le _ _ _)
      have hreach : reach (some k) size works.length = size * (k ⌈/⌉ size) := by
        dsimp only [reach] at h ⊢
        exact Nat.min_eq_right (by omega)
      rw [stopped_foldl_step read incremental total _ hstart, hlength, hreach, decide_eq_true_eq]
      exact hround.trans (Nat.le_add_left _ _)

end Run

/-- Pruning counts the entries that it drops. -/
theorem Run.removed_prune (r : Run) (found : List String) :
    (r.prune found).report.removed =
      r.files.keys.countP fun id => !found.contains id := by
  have hsplit := List.length_eq_countP_add_countP (fun e : String × FileEntry => found.contains e.1)
    (l := r.files.entries)
  have hkept : (r.files.filterKeys found.contains).size =
      r.files.entries.countP fun e => found.contains e.1 := List.countP_eq_length_filter.symm
  have hdropped : (r.files.keys.countP fun id => !found.contains id) =
      r.files.entries.countP fun e => !found.contains e.1 := by
    rw [Roster.keys, List.countP_map]
    rfl
  have hnot : (r.files.entries.countP fun e => ¬ found.contains e.1 = true) =
      r.files.entries.countP fun e => !found.contains e.1 := by
    congr 1
    funext e
    simp
  change r.files.size - (r.files.filterKeys found.contains).size = _
  rw [hkept, hdropped, Roster.size]
  omega

/-- The files of a project that no work names keep their entries. -/
theorem Work.get?_applyAll_of_not_mem {files : Roster String FileEntry} {works : List Work}
    {id : String} (h : id ∉ works.map Work.id) :
    (Work.applyAll read incremental files works).get? id = files.get? id := by
  induction works generalizing files with
  | nil => rfl
  | cons w works ih =>
      rw [List.map_cons, List.mem_cons, not_or] at h
      rw [applyAll_cons, ih h.2, Outcome.get?_applied_of_ne _ _ h.1]

/-- A run over the files found does those that it reaches, and ends. -/
theorem runOver_eq_of_workers (p : Project) {m : Nat} (hm : 1 ≤ m)
    (hworkers : p.settings.indexing.workers = m) (stopAt : Option Nat)
    (found : List Scan.Found) :
    p.runOver read incremental stopAt found =
      (((p.works found).take (Run.reach stopAt (2 * m) (p.works found).length)).foldl
        (Run.step read incremental (p.works found).length stopAt)
        (p.startRun stopAt)).finish ((p.works found).map Work.id) := by
  have hsize : windowSize p.settings.indexing.workers - 1 + 1 = 2 * m := by
    rw [hworkers, windowSize]
    omega
  rw [← hsize, ← Run.foldl_pieces_eq]
  rfl

/-- **What a run does to the index.** A run does the works that it reaches. One that does not get to
the end is cancelled, any other drops what was not found. -/
theorem exists_runOver_eq (p : Project) {m : Nat} (hm : 1 ≤ m)
    (hworkers : p.settings.indexing.workers = m) (stopAt : Option Nat)
    (found : List Scan.Found) :
    let works := p.works found
    let n := Run.reach stopAt (2 * m) works.length
    ∃ r : Run, Run.Account read incremental works.length (p.startRun stopAt) r (works.take n) ∧
      r.files = Work.applyAll read incremental p.index.files (works.take n) ∧
      p.runOver read incremental stopAt found =
        if n < works.length then { r with report := { r.report with cancelled := true } }
        else r.prune (works.map Work.id) := by
  intro works n
  have hlength : (works.take n).length = n := List.length_take_of_le (Run.reach_le _ _ _)
  have hdone : ((works.take n).foldl (Run.step read incremental works.length stopAt)
      (p.startRun stopAt)).done = n := by
    rw [Run.done_foldl_step, hlength]
    exact Nat.zero_add n
  refine ⟨_, Run.account_foldl_step read incremental works.length stopAt (works.take n) _,
    Run.files_foldl_step read incremental works.length stopAt (works.take n) _, ?_⟩
  rw [runOver_eq_of_workers read incremental p hm hworkers stopAt found]
  change Run.finish _ (works.map Work.id) = _
  rw [Run.finish, hdone, List.length_map]
  by_cases hlt : n < works.length
  · have hstopped := Run.stopped_of_reach_lt read incremental works.length p (by omega) hlt
    rw [hstopped, if_pos hlt, if_pos (by simpa using hlt)]
  · rw [if_neg hlt, if_neg (by simp [hlt])]

/-- Under the lock, with rules that can be read, indexing all is the run over the files found. -/
theorem indexAll_eq_runOver {p : Project} {h : Host} {scanner : Scanner} (now : Number)
    (stopAt : Option Nat) (hlock : (h.acquire p.writer (lockFile p.indexFile)).2 = .ok ())
    (hscanner : p.scanner (p.seen h) = .ok scanner) :
    let run := p.runOver read incremental stopAt (scanner.scan (p.seen h))
    (p.indexAll h read now incremental stopAt).answer = .ok (run.report, run.notes) ∧
      (p.indexAll h read now incremental stopAt).project.index.files = run.files := by
  intro run
  obtain ⟨hproject, -, hanswer⟩ :
      (p.indexAll h read now incremental stopAt).project = _ ∧ _ ∧
        (p.indexAll h read now incremental stopAt).answer = _ :=
    guarded_of_granted _ hlock
  rw [hscanner] at hproject hanswer
  exact ⟨hanswer, by rw [hproject]; rfl⟩

/-! ### What becomes of a file found -/

/-- The work that a file makes. -/
def workOn (p : Project) (f : Scan.Found) : Work where
  path := ⟨"/", p.root ++ f.way⟩
  id := f.id
  contents := f.contents
  stored := (p.index.files.get? f.id).map FileEntry.digest

theorem works_eq_map (p : Project) (found : List Scan.Found) : p.works found = found.map p.workOn :=
  rfl

/-- What reading a file that was found gives. -/
def readFound (read : FileReader) (root : List String) (f : Scan.Found) :
    Except ParseError (Option FileEntry) :=
  read ⟨"/", root ++ f.way⟩ f.contents f.id

/-- Whether the stored entry of a file notes the fingerprint of its contents. -/
def isCurrent (p : Project) (f : Scan.Found) : Bool :=
  (p.index.files.get? f.id).map FileEntry.digest == some (Digest.fingerprint f.contents)

/-- The files of an index after one file found. They stay as they are if the run is incremental and
the stored entry is current. Otherwise the file is read: its entry replaces the old one; a file that
can have none is dropped; and one that cannot be read is kept as it was. -/
def mergeFound (p : Project) (files : Roster String FileEntry) (f : Scan.Found) :
    Roster String FileEntry :=
  if incremental && p.isCurrent f then files
  else match readFound read p.root f with
    | .ok (some e) => files.put f.id e
    | .ok none => files.erase f.id
    | .error _ => files

/-- Whether a file found counts as indexed: it is read, and has an entry. -/
def countsAsIndexed (p : Project) (f : Scan.Found) : Bool :=
  !(incremental && p.isCurrent f) && (readFound read p.root f).toOption.join.isSome

/-- Whether a file found counts as skipped: its entry is current, or it can have none. -/
def countsAsSkipped (p : Project) (f : Scan.Found) : Bool :=
  incremental && p.isCurrent f || readFound read p.root f = .ok none

/-- The error of a file found that is read and fails. -/
def errorOf? (p : Project) (f : Scan.Found) : Option String :=
  if incremental && p.isCurrent f then none
  else match readFound read p.root f with
    | .ok _ => none
    | .error e => some (f.id ++ ": " ++ e.message)

/-- What becomes of a file that is read. -/
def Outcome.ofRead : Except ParseError (Option FileEntry) → Outcome
  | .ok none => .unsupported
  | .ok (some e) => .parsed e
  | .error f => .failed f

variable {read incremental} in
/-- A work is done by reading its file, unless its entry is current. -/
theorem Work.outcome_eq (w : Work) :
    w.outcome read incremental =
      if incremental && w.stored == some (Digest.fingerprint w.contents) then .unchanged
      else Outcome.ofRead (read w.path w.contents w.id) := by
  unfold Work.outcome Outcome.ofRead
  rfl

/-- What becomes of a file: it is unchanged if its stored entry is current, and else read. -/
theorem outcome_workOn_eq (p : Project) (f : Scan.Found) :
    (p.workOn f).outcome read incremental =
      if incremental && p.isCurrent f then .unchanged
      else Outcome.ofRead (readFound read p.root f) :=
  Work.outcome_eq (p.workOn f)

/-- **What a file found does to an index and to the report.** -/
theorem outcome_workOn_spec (p : Project) (f : Scan.Found) :
    (∀ files, ((p.workOn f).outcome read incremental).applied files f.id =
        p.mergeFound read incremental files f) ∧
      ((p.workOn f).outcome read incremental).isIndexed = p.countsAsIndexed read incremental f ∧
      ((p.workOn f).outcome read incremental).isSkipped = p.countsAsSkipped read incremental f ∧
      (p.workOn f).complaint? read incremental = p.errorOf? read incremental f := by
  unfold Work.complaint? mergeFound countsAsIndexed countsAsSkipped errorOf?
  rw [outcome_workOn_eq]
  by_cases hcurrent : (incremental && p.isCurrent f) = true
  · simp [hcurrent, Outcome.applied, Outcome.isIndexed, Outcome.isSkipped]
  · rw [Bool.not_eq_true] at hcurrent
    cases hread : readFound read p.root f with
    | error e =>
        simp [hcurrent, Outcome.ofRead, Outcome.applied, Outcome.isIndexed, Outcome.isSkipped,
          workOn, Except.toOption]
    | ok result =>
        cases result <;>
          simp [hcurrent, Outcome.ofRead, Outcome.applied, Outcome.isIndexed, Outcome.isSkipped,
            Except.toOption]

/-- The works on some files merge what becomes of the files, in order. -/
theorem applyAll_works (p : Project) (found : List Scan.Found) (files : Roster String FileEntry) :
    Work.applyAll read incremental files (p.works found) =
      found.foldl (p.mergeFound read incremental) files := by
  rw [works_eq_map, Work.applyAll, List.foldl_map]
  congr 1
  funext files f
  exact (outcome_workOn_spec read incremental p f).1 files

/-- The works on some files are counted as the files are. -/
theorem count_works (p : Project) (found : List Scan.Found) :
    Work.count read incremental Outcome.isIndexed (p.works found) =
        found.countP (p.countsAsIndexed read incremental) ∧
      Work.count read incremental Outcome.isSkipped (p.works found) =
        found.countP (p.countsAsSkipped read incremental) ∧
      (p.works found).filterMap (Work.complaint? read incremental) =
        found.filterMap (p.errorOf? read incremental) := by
  simp only [works_eq_map, Work.count, List.countP_map, List.filterMap_map]
  refine ⟨List.countP_congr fun f _ => ?_, List.countP_congr fun f _ => ?_,
    List.filterMap_congr fun f _ => ?_⟩
  · rw [Function.comp_apply, (outcome_workOn_spec read incremental p f).2.1]
  · rw [Function.comp_apply, (outcome_workOn_spec read incremental p f).2.2.1]
  · exact (outcome_workOn_spec read incremental p f).2.2.2

/-- **What a run does.** With `m` workers a run does the first `n` of the files found, all of them
or, if it is stopped, whole windows of `2 * m`. It notes each in order and merges each in order: a file
whose stored entry is current (in an incremental run) or that cannot be read is kept, one that can have
no entry is dropped, any other gets its new entry. Each is counted once: one that is current or can
have no entry as skipped, one that cannot be read as an error, any other as indexed. Only a run that
gets to the end drops the entries of files that were not found; one that does not is cancelled, and
whatever it has not done stays as it was. -/
theorem indexAll_account {p : Project} {h : Host} {scanner : Scanner} {m : Nat} (now : Number)
    (stopAt : Option Nat) (hm : 1 ≤ m) (hworkers : p.settings.indexing.workers = m)
    (hlock : (h.acquire p.writer (lockFile p.indexFile)).2 = .ok ())
    (hscanner : p.scanner (p.seen h) = .ok scanner) :
    let found := scanner.scan (p.seen h)
    let n := Run.reach stopAt (2 * m) found.length
    let merged := (found.take n).foldl (p.mergeFound read incremental) p.index.files
    let reply := p.indexAll h read now incremental stopAt
    ∃ report notes, reply.answer = .ok (report, notes) ∧
      notes = (found.take n).mapIdx (fun i f => ⟨i + 1, found.length, f.id⟩) ∧
      report.indexed = (found.take n).countP (p.countsAsIndexed read incremental) ∧
      report.skipped = (found.take n).countP (p.countsAsSkipped read incremental) ∧
      report.errors = (found.take n).filterMap (p.errorOf? read incremental) ∧
      report.indexed + report.skipped + report.errors.length = n ∧
      (report.cancelled = true ↔ n < found.length) ∧
      (n = found.length →
        reply.project.index.files = merged.filterKeys (found.map Scan.Found.id).contains ∧
        report.removed = merged.keys.countP fun id => !(found.map Scan.Found.id).contains id) ∧
      (n < found.length →
        reply.project.index.files = merged ∧ report.removed = 0 ∧
        ∀ id ∉ (found.take n).map Scan.Found.id,
          reply.project.index.files.get? id = p.index.files.get? id) := by
  intro found n merged reply
  have hworks : (p.works found).length = found.length := List.length_map ..
  have htake : (p.works found).take n = p.works (found.take n) := (List.map_take ..).symm
  have hids : (p.works found).map Work.id = found.map Scan.Found.id := List.map_map ..
  have hmerged : Work.applyAll read incremental p.index.files ((p.works found).take n) = merged := by
    rw [htake]
    exact applyAll_works read incremental p (found.take n) _
  obtain ⟨hcountIndexed, hcountSkipped, hcountErrors⟩ := count_works read incremental p (found.take n)
  obtain ⟨r, haccount, hfiles, hrun⟩ :=
    exists_runOver_eq read incremental p hm hworkers stopAt found
  obtain ⟨hanswer, hend⟩ : reply.answer = _ ∧ reply.project.index.files = _ :=
    indexAll_eq_runOver read incremental now stopAt hlock hscanner
  rw [hworks] at haccount hfiles hrun
  change Run.Account read incremental found.length _ r ((p.works found).take n) at haccount
  rw [htake] at haccount
  rw [show p.runOver read incremental stopAt (scanner.scan (p.seen h)) = _ from hrun, hids]
    at hanswer hend
  replace hfiles : r.files = merged := hfiles.trans hmerged
  have hnotes : r.notes = (found.take n).mapIdx fun i f => ⟨i + 1, found.length, f.id⟩ := by
    rw [haccount.notes, works_eq_map]
    apply List.ext_getElem?
    intro i
    simp only [startRun, List.nil_append, Nat.zero_add, List.getElem?_mapIdx, List.getElem?_map,
      Option.map_map]
    rfl
  have hindexed : r.report.indexed = (found.take n).countP (p.countsAsIndexed read incremental) :=
    (haccount.indexed.trans (Nat.zero_add _)).trans hcountIndexed
  have hskipped : r.report.skipped = (found.take n).countP (p.countsAsSkipped read incremental) :=
    (haccount.skipped.trans (Nat.zero_add _)).trans hcountSkipped
  have herrors : r.report.errors = (found.take n).filterMap (p.errorOf? read incremental) :=
    haccount.errors.trans hcountErrors
  have hsum : r.report.indexed + r.report.skipped + r.report.errors.length = n := by
    rw [hindexed, hskipped, herrors, ← hcountIndexed, ← hcountSkipped, ← hcountErrors,
      Work.count_add, works_eq_map, List.length_map]
    exact List.length_take_of_le (Run.reach_le _ _ _)
  by_cases hlt : n < found.length
  · rw [if_pos hlt] at hanswer hend
    refine ⟨_, _, hanswer, hnotes, hindexed, hskipped, herrors, hsum, by simpa using hlt,
      fun heq => absurd hlt (heq ▸ Nat.lt_irrefl _), fun _ => ⟨hend.trans hfiles, ?_, ?_⟩⟩
    · exact haccount.removed
    · intro id hid
      have hwork : id ∉ ((p.works found).take n).map Work.id := by
        rw [htake, works_eq_map, List.map_map]
        exact hid
      rw [hend, hfiles, ← hmerged, Work.get?_applyAll_of_not_mem read incremental hwork]
  · rw [if_neg hlt] at hanswer hend
    refine ⟨_, _, hanswer, hnotes, hindexed, hskipped, herrors, hsum, ?_, fun _ => ⟨?_, ?_⟩,
      fun h => absurd h hlt⟩
    · have hgo : (r.prune (found.map Scan.Found.id)).report.cancelled = false := haccount.cancelled
      exact iff_of_false (by rw [hgo]; exact Bool.false_ne_true) hlt
    · rw [hend, Run.prune, hfiles]
    · rw [Run.removed_prune, hfiles]

section Shelf

/-- Grammars of which one is missing, and which make no tree of a lone exclamation mark. -/
def mixedGrammars : Grammars where
  isMissing grammar := grammar == "ruby"
  tree? _ source :=
    if source == [33] then none else some (.node ⟨"module", true, 0, source.length, none⟩ [])

/-- Five modules, each a folder further down. Of the third the grammar is missing, and the second cannot
be read. -/
def shelfHost : Host :=
  { disk := ⟨[("p", .folder [("a.py", .file [120]), ("q", .folder [("b.py", .file [33]),
      ("r", .folder [("c.rb", .file []), ("s", .folder [("d.py", .file [121]),
        ("t", .folder [("e.py", .file [122])])])])])])]⟩ }

/-- An entry without symbols. -/
def bareEntry (id digest : String) : String × FileEntry :=
  (id, ⟨id, "python", digest, .zero, [], [], [], []⟩)

/-- Stored entries: of the first four modules, of which that of the first is current, and of a file that
is gone. -/
def shelfEntries : Roster String FileEntry :=
  .ofList [bareEntry "a.py" (Digest.fingerprint [120]), bareEntry "gone.py" "old",
    bareEntry "q/b.py" "old", bareEntry "q/r/c.rb" "old", bareEntry "q/r/s/d.py" "old"]

/-- The project of the five modules, with one worker. -/
def shelf : Project :=
  (Project.openWith shelfHost.disk ["p"] { indexing := { workers := 1 } } none 0).withFiles shelfEntries

/-- The scanner of the five modules. -/
def shelfScanner : Scanner :=
  { root := ["p"], excluded := Settings.excludedFolders ++ [Settings.usualFolder] }

/-- The modules in the order of the scan. -/
def shelfFound : List Scan.Found :=
  [⟨["a.py"], "a.py", [120]⟩, ⟨["q", "b.py"], "q/b.py", [33]⟩, ⟨["q", "r", "c.rb"], "q/r/c.rb", []⟩,
    ⟨["q", "r", "s", "d.py"], "q/r/s/d.py", [121]⟩,
    ⟨["q", "r", "s", "t", "e.py"], "q/r/s/t/e.py", [122]⟩]

/-- The incremental run over the five modules that is stopped after the third. -/
def shelfReply : Reply (Report × List Note) :=
  shelf.indexAll shelfHost (parseFile mixedGrammars) .zero true (some 3)

/-- Stopped after three of five files, a run in windows of two does four of them. Of their entries the
first is current and the second stays because of an error; the third is dropped; and the fourth is
replaced in its place. The last file gets no entry, and the entry of the file that is gone stays. -/
theorem indexAll_account_stopped :
    (shelfHost.acquire shelf.writer (lockFile shelf.indexFile)).2 = .ok () ∧
      shelf.scanner (shelf.seen shelfHost) = .ok shelfScanner ∧
      ∃ report notes, shelfReply.answer = .ok (report, notes) ∧
        notes = [⟨1, 5, "a.py"⟩, ⟨2, 5, "q/b.py"⟩, ⟨3, 5, "q/r/c.rb"⟩, ⟨4, 5, "q/r/s/d.py"⟩] ∧
        report.indexed = 1 ∧ report.skipped = 2 ∧ report.errors = ["q/b.py: no tree"] ∧
        report.cancelled = true ∧ report.removed = 0 ∧
        shelfReply.project.index.files.keys = ["a.py", "gone.py", "q/b.py", "q/r/s/d.py"] ∧
        shelfReply.project.index.files.values.map FileEntry.digest =
          [Digest.fingerprint [120], "old", "old", Digest.fingerprint [121]] := by
  have hlock : (shelfHost.acquire shelf.writer (lockFile shelf.indexFile)).2 = .ok () := by
    decide +kernel
  have hscanner : shelf.scanner (shelf.seen shelfHost) = .ok shelfScanner := by rfl
  have hfound : shelfScanner.scan (shelf.seen shelfHost) = shelfFound := by decide +kernel
  have hreach : Run.reach (some 3) (2 * 1) shelfFound.length = 4 := by decide
  have haccount := indexAll_account (parseFile mixedGrammars) true .zero (some 3) le_rfl rfl hlock
    hscanner
  dsimp only at haccount
  rw [hfound, hreach] at haccount
  obtain ⟨report, notes, hanswer, hnotes, hindexed, hskipped, herrors, -, hcancelled, -, hearly⟩ :=
    haccount
  obtain ⟨hfiles, hremoved, -⟩ := hearly (by decide)
  -- what becomes of the four files is worked out once
  obtain ⟨hone, htwo, hfailed, hkeys, hdigests⟩ :
      (shelfFound.take 4).countP (shelf.countsAsIndexed (parseFile mixedGrammars) true) = 1 ∧
      (shelfFound.take 4).countP (shelf.countsAsSkipped (parseFile mixedGrammars) true) = 2 ∧
      (shelfFound.take 4).filterMap (shelf.errorOf? (parseFile mixedGrammars) true) =
        ["q/b.py: no tree"] ∧
      ((shelfFound.take 4).foldl (shelf.mergeFound (parseFile mixedGrammars) true)
        shelf.index.files).keys = ["a.py", "gone.py", "q/b.py", "q/r/s/d.py"] ∧
      ((shelfFound.take 4).foldl (shelf.mergeFound (parseFile mixedGrammars) true)
        shelf.index.files).values.map FileEntry.digest =
          [Digest.fingerprint [120], "old", "old", Digest.fingerprint [121]] := by
    decide +kernel
  rw [show shelfReply.project.index.files = _ from hfiles]
  exact ⟨hlock, hscanner, report, notes, hanswer, hnotes, hindexed.trans hone, hskipped.trans htwo,
    herrors.trans hfailed, hcancelled.mpr (by decide), hremoved, hkeys, hdigests⟩

end Shelf

end Concordance.Project
