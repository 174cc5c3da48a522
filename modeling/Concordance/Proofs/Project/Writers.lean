import Concordance.Proofs.Project.Reopen

/-!
# Several writers

The same index may be open in several places. Each of them works on its own copy, which it read when
it was opened, and each of its changes stores the whole of that copy. The lock sees to it that one
change follows the other; it does not make a writer read what others have stored.

So the last writer wins (`Writers.load_eq_last_writer`): what is loaded afterwards is what the last
writer had when it was opened, with all that it has changed since, and nothing that others have
stored in the meantime.
-/

namespace Concordance

/-- Some writers that have one index open, and the host they work on. -/
structure Writers (ι : Type) where
  project : ι → Project
  host : Host

/-- A change to one file of an index: who made it, and the entry that the file was given or that it
was removed. -/
structure Edit (ι : Type) where
  who : ι
  id : String
  entry : Option FileEntry

/-- The files after one of them was given an entry or removed. -/
def Roster.edited (files : Roster String FileEntry) (id : String) :
    Option FileEntry → Roster String FileEntry
  | some e => files.put id e
  | none => files.erase id

/-- After a change a file has the new entry or none, and the others are as they were. -/
theorem Roster.get?_edited (files : Roster String FileEntry) (id : String)
    (entry : Option FileEntry) (k : String) :
    (files.edited id entry).get? k = if k = id then entry else files.get? k := by
  cases entry with
  | none => exact Roster.get?_erase files id k
  | some e => exact Roster.get?_put files id k e

namespace Session

variable (read : FileReader)

/-- An event that indexes or removes a single file. -/
def Event.IsSingle : Event → Prop
  | .indexOne _ _ | .removeFile _ _ => True
  | _ => False

/-- The file that an event has changed, with its new entry: one that was indexed or removed, as the
answer to it says. -/
def edit? (s : Session) : Event → Option (String × Option FileEntry)
  | .indexOne now path =>
    match (s.project.indexOne s.host read now path).answer, s.project.idOf s.seen path with
    | .ok (some e), .ok id => some (id, some e)
    | _, _ => none
  | .removeFile now path =>
    match (s.project.removeFile s.host now path).answer, s.project.idOf s.seen path with
    | .ok true, .ok id => some (id, none)
    | _, _ => none
  | _ => none

/-- The id of an entry is that of the path. -/
theorem idOf_of_entryFor? {p : Project} {read : FileReader} {d : Disk} {path : Path} {id : String}
    {e : FileEntry} (h : p.entryFor? read d path = some (id, e)) : p.idOf d path = .ok id := by
  unfold Project.entryFor? at h
  split at h
  · next id' contents hid hcontents =>
    split at h
    · cases h
      exact hid
    · cases h
  · cases h

/-- **What an event on a single file stores** is the index with the change that its answer tells. -/
theorem change?_of_single (s : Session) {event : Event} (h : event.IsSingle) :
    match s.edit? read event with
      | none => s.change? read event = none
      | some (id, entry) =>
        ∃ now, s.change? read event =
          some (s.project.withFiles (s.project.index.files.edited id entry), now) := by
  have hdisk : s.seen = s.project.seen s.host := rfl
  cases event with
  | indexAll now incremental stopAt => exact h.elim
  | changeScope now changes => exact h.elim
  | clear now => exact h.elim
  | outside host => exact h.elim
  | indexOne now path =>
      rw [edit?, change?, isGranted, Project.indexOne]
      cases hlock : (s.host.acquire s.project.writer (lockFile s.project.indexFile)).2 with
      | error f =>
          obtain ⟨-, -, hanswer⟩ := Project.guarded_of_refused _ hlock
          rw [hanswer]
          rfl
      | ok _ =>
          obtain ⟨-, -, hanswer⟩ := Project.guarded_of_granted _ hlock
          rw [hanswer, ← hdisk, Event.change?]
          cases hentry : s.project.entryFor? read s.seen path with
          | none => rfl
          | some found =>
              obtain ⟨id, e⟩ := found
              rw [idOf_of_entryFor? hentry]
              exact ⟨now, rfl⟩
  | removeFile now path =>
      rw [edit?, change?, isGranted, Project.removeFile]
      cases hlock : (s.host.acquire s.project.writer (lockFile s.project.indexFile)).2 with
      | error f =>
          obtain ⟨-, -, hanswer⟩ := Project.guarded_of_refused _ hlock
          rw [hanswer]
          rfl
      | ok _ =>
          obtain ⟨-, -, hanswer⟩ := Project.guarded_of_granted _ hlock
          rw [hanswer, ← hdisk, Event.change?]
          cases hid : s.project.idOf s.seen path with
          | error f => rfl
          | ok id =>
              dsimp only
              by_cases hthere : s.project.index.files.contains id = true
              · rw [if_pos hthere, if_pos hthere]
                exact ⟨now, rfl⟩
              · rw [if_neg hthere, if_neg hthere]
                rfl

end Session

namespace Writers

variable {ι : Type} [DecidableEq ι] (read : FileReader)

/-- The session of one of the writers. -/
def session (w : Writers ι) (who : ι) : Session := ⟨w.project who, w.host⟩

/-- The writers after one of them has done something. -/
def step (w : Writers ι) (turn : ι × Session.Event) : Writers ι :=
  let s := (w.session turn.1).after read turn.2
  ⟨Function.update w.project turn.1 s.project, s.host⟩

/-- The writers after some of them have done something, one after the other. -/
def run (w : Writers ι) (turns : List (ι × Session.Event)) : Writers ι :=
  turns.foldl (step read) w

/-- The change that a writer has made. -/
def edit? (w : Writers ι) (turn : ι × Session.Event) : Option (Edit ι) :=
  ((w.session turn.1).edit? read turn.2).map fun change => ⟨turn.1, change.1, change.2⟩

/-- The changes that the writers have made, in their order. -/
def edits (w : Writers ι) : List (ι × Session.Event) → List (Edit ι)
  | [] => []
  | turn :: rest => (w.edit? read turn).toList ++ (w.step read turn).edits rest

/-- Whether every writer could save what it has stored. -/
def savesAll (w : Writers ι) : List (ι × Session.Event) → Bool
  | [] => true
  | turn :: rest => (w.session turn.1).saved read turn.2 && (w.step read turn).savesAll rest

/-- The last change of a file by a writer: its entry or its removal, if there is one. -/
def lastOf? (edits : List (Edit ι)) (who : ι) (id : String) : Option (Option FileEntry) :=
  (edits.filterMap fun e => if e.who = who ∧ e.id = id then some e.entry else none).getLast?

/-- Writers that have the index of one project open, in a file that can be saved and found. -/
structure Sharing (w : Writers ι) (root : List String) (file : Path) : Prop where
  root : ∀ who, (w.project who).root = root
  indexFile : ∀ who, (w.project who).indexFile = file
  kept : ∀ who, (w.project who).Kept
  seated : w.host.disk.Seated file
  nonempty : file.parts ≠ []
  named : file.name ≠ ".."

/-- The index that is stored in a file. -/
def Holds (d : Disk) (root : List String) (file : Path) (index : ProjectIndex) : Prop :=
  (∃ folder, d.Seat file folder) ∧
    ProjectIndex.load d file (Project.rootPath root).toText = index

variable {read} {w : Writers ι} {root : List String} {file : Path}

/-- A turn in which nothing was changed: the writers are as they were, and the file holds what it
held. -/
structure Quiet (w w' : Writers ι) (root : List String) (file : Path) : Prop where
  project : ∀ who, w'.project who = w.project who
  holds : ∀ index, Holds w.host.disk root file index → Holds w'.host.disk root file index

/-- A turn in which a writer made a change: it has the change, the others have not, and the file
holds the index of that writer. -/
structure Wrote (w w' : Writers ι) (root : List String) (file : Path) (e : Edit ι) : Prop where
  files : ∀ who, (w'.project who).index.files =
    if who = e.who then (w.project who).index.files.edited e.id e.entry
    else (w.project who).index.files
  holds : Holds w'.host.disk root file (w'.project e.who).index

/-- A turn without a change. -/
theorem Sharing.step_of_none (hw : w.Sharing root file) {turn : ι × Session.Event}
    (hidle : Session.Idle (w.session turn.1) ((w.session turn.1).after read turn.2)) :
    (w.step read turn).Sharing root file ∧ Quiet w (w.step read turn) root file := by
  have hfile := hw.indexFile turn.1
  have hproject : ∀ who, (w.step read turn).project who = w.project who := by
    intro who
    change Function.update w.project turn.1 _ who = _
    rw [hidle.project]
    exact congrFun (Function.update_eq_self turn.1 w.project) who
  have hdisk : (w.step read turn).host.disk = (w.project turn.1).seen w.host := hidle.disk
  refine ⟨⟨?_, ?_, ?_, ?_, hw.nonempty, hw.named⟩, ⟨hproject, ?_⟩⟩
  · intro who
    rw [hproject who]
    exact hw.root who
  · intro who
    rw [hproject who]
    exact hw.indexFile who
  · intro who
    rw [hproject who]
    exact hw.kept who
  · have hseated := hw.seated
    rw [← hfile] at hseated ⊢
    rw [hdisk]
    exact hseated.seen
  · rintro index ⟨⟨folder, hseat⟩, hload⟩
    rw [← hfile] at hseat hload ⊢
    obtain ⟨hseat', hload'⟩ := hseat.seen (Project.rootPath root).toText
    rw [hdisk]
    exact ⟨⟨folder, hseat'⟩, hload'.trans hload⟩

/-- A turn that gives one writer another state of the project, and leaves the index where it can be
found. -/
theorem Sharing.of_update (hw : w.Sharing root file) {w' : Writers ι} {x : ι} {q : Project}
    (hproject : ∀ who, w'.project who = if who = x then q else w.project who)
    (hqroot : q.root = root) (hqfile : q.indexFile = file) (hqkept : q.Kept)
    (hseated : w'.host.disk.Seated file) : w'.Sharing root file := by
  refine ⟨?_, ?_, ?_, hseated, hw.nonempty, hw.named⟩
  · intro who
    rw [hproject who]
    split
    · exact hqroot
    · exact hw.root who
  · intro who
    rw [hproject who]
    split
    · exact hqfile
    · exact hw.indexFile who
  · intro who
    rw [hproject who]
    split
    · exact hqkept
    · exact hw.kept who

omit [DecidableEq ι] in
/-- The file holds what a writer saves in it. -/
theorem Sharing.holds_save (hw : w.Sharing root file) (x : ι) {q : Project} (hqroot : q.root = root)
    (hqkept : q.Kept) (hsaved : (q.index.save ((w.project x).seen w.host) file).2 = true) :
    Holds (q.index.save ((w.project x).seen w.host) file).1 root file q.index := by
  have hseen : ((w.project x).seen w.host).Seated file := by
    have hseated := hw.seated
    rw [← hw.indexFile x] at hseated ⊢
    exact hseated.seen
  obtain ⟨hseat, hfile⟩ := hseen.save hw.nonempty hw.named hsaved
  refine ⟨hseat, ?_⟩
  rw [ProjectIndex.load_eq, hfile, ← hqroot]
  exact hqkept.ofStored

/-- A turn with a change. -/
theorem Sharing.step_of_some (hread : read.Dates) (hw : w.Sharing root file)
    {turn : ι × Session.Event} (hdated : turn.2.HasTime Number.Representable) {id : String}
    {entry : Option FileEntry} {now : Number}
    (hchange : (w.session turn.1).change? read turn.2 =
      some ((w.project turn.1).withFiles ((w.project turn.1).index.files.edited id entry), now))
    (hsaved : (w.session turn.1).saved read turn.2 = true) :
    (w.step read turn).Sharing root file ∧
      Wrote w (w.step read turn) root file ⟨turn.1, id, entry⟩ := by
  obtain ⟨hkept, -, hnow⟩ := Session.kept_of_change? hread (hw.kept turn.1) hdated hchange
  have hcases := (w.session turn.1).after_cases read hdated.isOwn
  rw [hchange] at hcases
  obtain ⟨hproject, hdisk⟩ : Session.Stored _ _ _ _ := hcases
  rw [Session.saved, hchange] at hsaved
  -- the state that is stored
  obtain ⟨q, hq⟩ : ∃ q, q = ((w.project turn.1).withFiles
      ((w.project turn.1).index.files.edited id entry)).persisted now := ⟨_, rfl⟩
  have hqkept : q.Kept := hq ▸ Session.kept_persisted hkept hnow
  have hqroot : q.root = root := by rw [hq]; exact hw.root turn.1
  have hqfile : q.indexFile = file := by rw [hq]; exact hw.indexFile turn.1
  have hnew : ∀ who, (w.step read turn).project who =
      if who = turn.1 then q else w.project who := by
    intro who
    change Function.update w.project turn.1 _ who = _
    rw [Function.update_apply, hproject, hq]
  have hsaved : (q.index.save ((w.project turn.1).seen w.host) file).2 = true := by
    rw [← hqfile, hq]
    exact hsaved
  have hdisk : (w.step read turn).host.disk =
      (q.index.save ((w.project turn.1).seen w.host) file).1 := by
    rw [← hqfile, hq]
    exact hdisk
  have hholds := hw.holds_save turn.1 hqroot hqkept hsaved
  rw [← hdisk] at hholds
  obtain ⟨folder, hseat⟩ := hholds.1
  refine ⟨hw.of_update hnew hqroot hqfile hqkept hseat.seated, ⟨fun who => ?_, ?_⟩⟩
  · rw [hnew who]
    by_cases hwho : who = turn.1
    · rw [if_pos hwho, if_pos hwho, hwho, hq]
      rfl
    · rw [if_neg hwho, if_neg hwho]
  · rw [hnew turn.1, if_pos rfl]
    exact hholds

/-- **One turn.** It is quiet, or a writer makes a change. -/
theorem Sharing.step (hread : read.Dates) (hw : w.Sharing root file) {turn : ι × Session.Event}
    (hsingle : turn.2.IsSingle) (hdated : turn.2.HasTime Number.Representable)
    (hsaved : (w.session turn.1).saved read turn.2 = true) :
    (w.step read turn).Sharing root file ∧
      match w.edit? read turn with
      | none => Quiet w (w.step read turn) root file
      | some e => Wrote w (w.step read turn) root file e := by
  have hchange := (w.session turn.1).change?_of_single read hsingle
  unfold edit?
  cases hedit : (w.session turn.1).edit? read turn.2 with
  | none =>
      rw [hedit] at hchange
      have hcases := (w.session turn.1).after_cases read hdated.isOwn
      rw [hchange] at hcases
      exact hw.step_of_none hcases
  | some change =>
      obtain ⟨id, entry⟩ := change
      rw [hedit] at hchange
      obtain ⟨now, hchange⟩ := hchange
      exact hw.step_of_some hread hdated hchange hsaved

/-! ### Many turns -/

/-- A turn of a writer on a single file, at a time that can be stored. -/
def IsTurn (turn : ι × Session.Event) : Prop :=
  turn.2.IsSingle ∧ turn.2.HasTime Number.Representable

/-- The changes of some turns come after those that were made before. -/
theorem lastOf?_append (first rest : List (Edit ι)) (who : ι) (id : String) :
    lastOf? (first ++ rest) who id = (lastOf? rest who id).or (lastOf? first who id) := by
  rw [lastOf?, List.filterMap_append, List.getLast?_append]
  rfl

/-- The last of one change is that change, if it is by this writer and of this file. -/
theorem lastOf?_singleton (e : Edit ι) (who : ι) (id : String) :
    lastOf? [e] who id = if e.who = who ∧ e.id = id then some e.entry else none := by
  unfold lastOf?
  by_cases h : e.who = who ∧ e.id = id
  · rw [if_pos h, List.filterMap_cons, if_pos h]
    rfl
  · rw [if_neg h, List.filterMap_cons, if_neg h]
    rfl

/-- **What a writer has.** It has what it has changed, each file as it has changed it last, and
otherwise what it had. -/
theorem Sharing.get?_run (hread : read.Dates) (hw : w.Sharing root file)
    {turns : List (ι × Session.Event)}
    (hturns : ∀ turn ∈ turns, IsTurn turn) (hsaved : w.savesAll read turns = true) (who : ι)
    (id : String) :
    ((w.run read turns).project who).index.files.get? id =
      (lastOf? (w.edits read turns) who id).getD ((w.project who).index.files.get? id) := by
  induction turns generalizing w with
  | nil => rfl
  | cons turn rest ih =>
      obtain ⟨⟨hsingle, hdated⟩, hrest⟩ := List.forall_mem_cons.mp hturns
      rw [savesAll, Bool.and_eq_true] at hsaved
      obtain ⟨hstep, hwhat⟩ := hw.step hread hsingle hdated hsaved.1
      have hrun := ih hstep hrest hsaved.2
      rw [run, List.foldl_cons]
      change ((Writers.run read (w.step read turn) rest).project who).index.files.get? id = _
      rw [hrun, edits, lastOf?_append]
      cases hedit : w.edit? read turn with
      | none =>
          rw [hedit] at hwhat
          have hquiet : Quiet w (w.step read turn) root file := hwhat
          rw [hquiet.project who, Option.toList_none]
          change _ = ((lastOf? _ who id).or none).getD _
          rw [Option.or_none]
      | some e =>
          rw [hedit] at hwhat
          have hwrote : Wrote w (w.step read turn) root file e := hwhat
          rw [Option.toList_some, lastOf?_singleton, hwrote.files who]
          cases lastOf? ((w.step read turn).edits read rest) who id with
          | some entry => rfl
          | none =>
              rw [Option.none_or, Option.getD_none]
              by_cases hwho : who = e.who
              · subst hwho
                rw [if_pos rfl, Roster.get?_edited]
                by_cases hid : id = e.id
                · rw [if_pos hid, if_pos ⟨rfl, hid.symm⟩]
                  rfl
                · rw [if_neg hid, if_neg fun h => hid h.2.symm]
                  rfl
              · rw [if_neg hwho, if_neg fun h => hwho h.1.symm]
                rfl

/-- **What the file holds.** After some turns it is the index of the writer that has made the last
change, or if there was none, of the writer that had made the last one before. -/
theorem Sharing.holds_run (hread : read.Dates) (hw : w.Sharing root file)
    {turns : List (ι × Session.Event)}
    (hturns : ∀ turn ∈ turns, IsTurn turn) (hsaved : w.savesAll read turns = true) {who : ι}
    (hlast : (w.edits read turns).getLast?.map Edit.who = some who ∨
      (w.edits read turns = [] ∧ Holds w.host.disk root file (w.project who).index)) :
    Holds (w.run read turns).host.disk root file ((w.run read turns).project who).index := by
  induction turns generalizing w with
  | nil =>
      rcases hlast with hlast | ⟨-, hholds⟩
      · cases hlast
      · exact hholds
  | cons turn rest ih =>
      obtain ⟨⟨hsingle, hdated⟩, hrest⟩ := List.forall_mem_cons.mp hturns
      rw [savesAll, Bool.and_eq_true] at hsaved
      obtain ⟨hstep, hwhat⟩ := hw.step hread hsingle hdated hsaved.1
      apply ih hstep hrest hsaved.2
      rw [edits] at hlast
      cases hedit : w.edit? read turn with
      | none =>
          rw [hedit] at hwhat hlast
          have hquiet : Quiet w (w.step read turn) root file := hwhat
          rcases hlast with hlast | ⟨hnone, hholds⟩
          · exact Or.inl hlast
          · refine Or.inr ⟨hnone, ?_⟩
            rw [hquiet.project who]
            exact hquiet.holds _ hholds
      | some e =>
          rw [hedit] at hwhat hlast
          have hwrote : Wrote w (w.step read turn) root file e := hwhat
          rcases hlast with hlast | ⟨hnone, -⟩
          · by_cases hempty : (w.step read turn).edits read rest = []
            · -- this was the last change
              rw [hempty] at hlast
              have hwho : e.who = who := Option.some.inj hlast
              subst hwho
              exact Or.inr ⟨hempty, hwrote.holds⟩
            · rw [List.getLast?_append_of_ne_nil _ hempty] at hlast
              exact Or.inl hlast
          · cases hnone

/-- **The last writer wins.** Several writers have one index open and change single files of it, one
after the other, and every save succeeds. Then the index that is loaded is that of the writer who
made the last change: of each file it has the entry that this writer gave it last, it lacks the
files that this writer removed last, and all others are as this writer had them at the start. -/
theorem load_eq_last_writer (hread : read.Dates) (hw : w.Sharing root file)
    {turns : List (ι × Session.Event)} (hturns : ∀ turn ∈ turns, IsTurn turn)
    (hsaved : w.savesAll read turns = true) {who : ι}
    (hlast : (w.edits read turns).getLast?.map Edit.who = some who) :
    let loaded := ProjectIndex.load (w.run read turns).host.disk file
      (Project.rootPath root).toText
    loaded = ((w.run read turns).project who).index ∧
      ∀ id, loaded.files.get? id =
        (lastOf? (w.edits read turns) who id).getD ((w.project who).index.files.get? id) := by
  intro loaded
  obtain ⟨-, hloaded⟩ := hw.holds_run hread hturns hsaved (Or.inl hlast)
  refine ⟨hloaded, fun id => ?_⟩
  change (ProjectIndex.load _ _ _).files.get? id = _
  rw [hloaded]
  exact hw.get?_run hread hturns hsaved who id

section Two

open Session (clock clock_isTimely parseFile_dates bareGrammars)

/-- The file of the index of a project in its usual place. -/
def usualFile : Path := ⟨"/", ["p", ".polyindex", "index.json"]⟩

/-- Two writers that have opened the project on a disk, with the index in a file. -/
def twoOn (d : Disk) (file : Path) : Writers Bool where
  project who := .openStored d ["p"] {} (some file) (if who then 1 else 0)
  host := { disk := d }

/-- A project of two modules. -/
def pairDisk : Disk := ⟨[("p", .folder [("a.py", .file [120]), ("b.py", .file [121])])]⟩

/-- Each of two writers indexes a module of its own. -/
def oneEach : List (Bool × Session.Event) :=
  [(false, .indexOne clock (.ofString "a.py")), (true, .indexOne clock (.ofString "b.py"))]

/-- What is told of a list of changes: who made them, to which file, and whether it was indexed. -/
def summary (edits : List (Edit Bool)) : List (Bool × String × Bool) :=
  edits.map fun e => (e.who, e.id, e.entry.isSome)

theorem twoOn_sharing : (twoOn pairDisk usualFile).Sharing ["p"] usualFile := by
  refine ⟨fun who => rfl, fun who => rfl, fun who => ?_, ?_, by decide, by decide⟩
  · have hload : Settings.load pairDisk ["p"] = .ok {} := by decide +kernel
    have hopen : Project.ofDisk pairDisk ["p"] none (some usualFile) (if who then 1 else 0) =
        .ok ((twoOn pairDisk usualFile).project who) := by
      rw [Project.ofDisk, hload]
      rfl
    exact Project.kept_of_ofDisk hopen (.real ⟨false, 0, 0⟩) fun id e he => by cases he
  · intro made hmade
    have hmade' : pairDisk.makeFolders usualFile.parent.parts =
        .ok ⟨[("p", .folder [("a.py", .file [120]), ("b.py", .file [121]),
          (".polyindex", .folder [])])]⟩ := by rfl
    cases hmade'.symm.trans hmade
    exact ⟨["p", ".polyindex"], by decide +kernel, ⟨_, rfl⟩, (fun target h => by cases h),
      (fun target h => by cases h)⟩

theorem oneEach_isTurn : ∀ turn ∈ oneEach, IsTurn turn := by
  intro turn hturn
  simp only [oneEach, List.mem_cons, List.not_mem_nil, or_false] at hturn
  rcases hturn with rfl | rfl
  · exact ⟨trivial, clock_isTimely.1⟩
  · exact ⟨trivial, clock_isTimely.1⟩

theorem oneEach_saved :
    (twoOn pairDisk usualFile).savesAll (parseFile bareGrammars) oneEach = true := by
  decide +kernel

theorem oneEach_edits :
    summary ((twoOn pairDisk usualFile).edits (parseFile bareGrammars) oneEach) =
      [(false, "a.py", true), (true, "b.py", true)] := by
  decide +kernel

theorem oneEach_last :
    ((twoOn pairDisk usualFile).edits (parseFile bareGrammars) oneEach).getLast?.map Edit.who =
      some true := by
  decide +kernel

/-- The ids of the files that are loaded after some turns of two writers on a disk. -/
def foundAfter (d : Disk) (file : Path) (turns : List (Bool × Session.Event)) : List String :=
  (ProjectIndex.load ((twoOn d file).run (parseFile bareGrammars) turns).host.disk file
    (Project.rootPath ["p"]).toText).files.keys

/-- Of the two modules only that of the last writer is found. -/
theorem load_eq_last_writer_oneEach :
    (twoOn pairDisk usualFile).savesAll (parseFile bareGrammars) oneEach = true ∧
      foundAfter pairDisk usualFile oneEach = ["b.py"] := by
  obtain ⟨hloaded, -⟩ := load_eq_last_writer (parseFile_dates bareGrammars) twoOn_sharing
    oneEach_isTurn oneEach_saved oneEach_last
  have hkeys : (((twoOn pairDisk usualFile).run (parseFile bareGrammars) oneEach).project
      true).index.files.keys = ["b.py"] := by decide +kernel
  exact ⟨oneEach_saved, by rw [foundAfter, hloaded, hkeys]⟩

/-- A single module is indexed by one of the writers. -/
def oneAlone : List (Bool × Session.Event) := [(false, .indexOne clock (.ofString "a.py"))]

/-- The folder of the index is reached through a link in the place of the index. -/
def linkedIndex : Disk :=
  ⟨[("p", .folder [("a.py", .file [120]),
    ("d", .folder [("index.json", .link (.ofString "e")), ("e", .folder [])])])]⟩

/-- The path to the index through that link. -/
def roundaboutFile : Path := ⟨"/", ["p", "d", "index.json", "..", "index.json"]⟩

/-- **An update is lost.** Each of two writers indexes a module, every save succeeds, and the first
module is not found. With a link in the place of the draft, or in that of the index, even the module
of a single writer may not be found. -/
theorem update_lost_oneEach :
    (twoOn pairDisk usualFile).savesAll (parseFile bareGrammars) oneEach = true ∧
      summary ((twoOn pairDisk usualFile).edits (parseFile bareGrammars) oneEach) =
        [(false, "a.py", true), (true, "b.py", true)] ∧
      "a.py" ∉ foundAfter pairDisk usualFile oneEach ∧
      (twoOn Session.linkedDraft usualFile).savesAll (parseFile bareGrammars) oneAlone = true ∧
      "a.py" ∉ foundAfter Session.linkedDraft usualFile oneAlone ∧
      (twoOn linkedIndex roundaboutFile).savesAll (parseFile bareGrammars) oneAlone = true ∧
      "a.py" ∉ foundAfter linkedIndex roundaboutFile oneAlone := by
  have hlost : "a.py" ∉ foundAfter pairDisk usualFile oneEach := by
    obtain ⟨-, hloaded⟩ := twoOn_sharing.holds_run (parseFile_dates bareGrammars) oneEach_isTurn
      oneEach_saved (Or.inl oneEach_last)
    have hkeys : "a.py" ∉ (((twoOn pairDisk usualFile).run (parseFile bareGrammars)
        oneEach).project true).index.files.keys := by decide +kernel
    rw [foundAfter, hloaded]
    exact hkeys
  exact ⟨oneEach_saved, oneEach_edits, hlost, by decide +kernel, by decide +kernel,
    by decide +kernel, by decide +kernel⟩

end Two

end Writers

end Concordance
