import Concordance.Digest
import Concordance.Parse.Basic
import Concordance.Project.Basic

/-!
# Indexing a project

A run brings the index up to date with the disk. It scans the project, reads the files that it finds, and
merges what it reads into the index one file after the other. An incremental run leaves a file as it is
stored if its contents have not changed. At the end the files that the scan no longer finds are dropped.

Files are taken in windows. A run can be stopped; it then finishes its window, keeps what it has merged,
and drops nothing.
-/

namespace Concordance

/-- How files are read: by path, contents and id. A file in no known language has no entry. -/
abbrev FileReader := Path → Bytes → String → Except ParseError (Option FileEntry)

namespace Project

/-- A file that a run has to look at, with the fingerprint of its stored entry. -/
structure Work where
  path : Path
  id : String
  contents : Bytes
  stored : Option String
  deriving DecidableEq, Inhabited

/-- What became of a file. -/
inductive Outcome where
  | unchanged
  | unsupported
  | parsed (entry : FileEntry)
  | failed (error : ParseError)
  deriving DecidableEq, Inhabited

/-- Looks at a file. -/
def Work.outcome (read : FileReader) (incremental : Bool) (w : Work) : Outcome :=
  if incremental && w.stored == some (Digest.fingerprint w.contents) then .unchanged
  else match read w.path w.contents w.id with
    | .ok none => .unsupported
    | .ok (some e) => .parsed e
    | .error e => .failed e

/-- The counts of a run. -/
structure Report where
  indexed : Nat := 0
  skipped : Nat := 0
  removed : Nat := 0
  errors : List String := []
  cancelled : Bool := false
  deriving DecidableEq, Inhabited

/-- A note that so many files of all are done, the last being the one named. -/
structure Note where
  done : Nat
  total : Nat
  id : String
  deriving DecidableEq, Inhabited

/-- A run under way. -/
structure Run where
  files : Roster String FileEntry
  report : Report := {}
  notes : List Note := []
  done : Nat := 0
  stopped : Bool := false

namespace Run

/-- Merges what became of a file into the index. -/
def merge (r : Run) (id : String) : Outcome → Run
  | .unchanged => { r with report := { r.report with skipped := r.report.skipped + 1 } }
  | .unsupported =>
    { r with
      files := r.files.erase id
      report := { r.report with skipped := r.report.skipped + 1 } }
  | .parsed e =>
    { r with
      files := r.files.put id e
      report := { r.report with indexed := r.report.indexed + 1 } }
  | .failed e =>
    { r with report := { r.report with errors := r.report.errors ++ [id ++ ": " ++ e.message] } }

/-- Does one file. The run is stopped once `stopAt` files are done. -/
def step (read : FileReader) (incremental : Bool) (total : Nat) (stopAt : Option Nat) (r : Run)
    (w : Work) : Run :=
  let r := r.merge w.id (w.outcome read incremental)
  let done := r.done + 1
  { r with
    done
    notes := r.notes ++ [⟨done, total, w.id⟩]
    stopped := r.stopped || stopAt == some done }

/-- Does one window, unless the run was stopped. -/
def window (read : FileReader) (incremental : Bool) (total : Nat) (stopAt : Option Nat) (r : Run)
    (works : List Work) : Run :=
  if r.stopped then r else works.foldl (step read incremental total stopAt) r

/-- Drops the files that are not among those found. -/
def prune (r : Run) (found : List String) : Run :=
  let files := r.files.filterKeys found.contains
  { r with files, report := { r.report with removed := r.files.size - files.size } }

/-- Ends a run: one that was stopped early is cancelled, any other drops what was not found. -/
def finish (r : Run) (found : List String) : Run :=
  if r.stopped && r.done < found.length then
    { r with report := { r.report with cancelled := true } }
  else r.prune found

end Run

/-- Cuts a list into pieces of one more than `n`. -/
def pieces {α : Type} (n : Nat) : List α → List (List α)
  | [] => []
  | a :: rest => (a :: rest.take n) :: pieces n (rest.drop n)
termination_by l => l.length
decreasing_by simp only [List.length_drop, List.length_cons]; omega

/-- The size of a window: two files for each worker, and at least two. The workers themselves, which
must be some, are left out: what they do in a window is done in its order. -/
def windowSize (workers : Int) : Nat := 2 * (max workers 1).toNat

/-- The files that a run has to look at. -/
def works (p : Project) (found : List Scan.Found) : List Work :=
  found.map fun f =>
    { path := ⟨"/", p.root ++ f.way⟩
      id := f.id
      contents := f.contents
      stored := (p.index.files.get? f.id).map FileEntry.digest }

/-- The run over the files found. -/
def runOver (p : Project) (read : FileReader) (incremental : Bool) (stopAt : Option Nat)
    (found : List Scan.Found) : Run :=
  let works := p.works found
  let start : Run := { files := p.index.files, stopped := stopAt == some 0 }
  let windows := pieces (windowSize p.settings.indexing.workers - 1) works
  (windows.foldl (Run.window read incremental works.length stopAt) start).finish (works.map Work.id)

/-- Brings the index up to date with the disk. -/
def indexAll (p : Project) (h : Host) (read : FileReader) (now : Number) (incremental : Bool)
    (stopAt : Option Nat) : Reply (Report × List Note) :=
  p.guarded h fun d =>
    match p.scanner d with
    | .error .undecodableRules => (p, d, .error .undecodableRules)
    | .ok s =>
      let run := p.runOver read incremental stopAt (s.scan d)
      let (p, d) := (p.withFiles run.files).persist now d
      (p, d, .ok (run.report, run.notes))

end Project

end Concordance
