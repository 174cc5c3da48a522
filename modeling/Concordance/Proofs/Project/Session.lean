import Concordance.Project.Update
import Concordance.Proofs.Disk.Seat

/-!
# Sessions

A session is an open project together with the host it works on. What happens in it is a list of
events: the operations of the project, each under the lock of its index, and between them changes
from outside, which may leave any disk and any locks behind.

A session is *usual* if the index is kept in its usual folder and the disk is plain. The operations
keep a session usual (`Usual.run`), so that all that is asked of the outside is a plain disk.
-/

namespace Concordance

/-- An open project and the host it works on. -/
structure Session where
  project : Project
  host : Host

/-- What may happen while a project is open. -/
inductive Session.Event where
  | indexAll (now : Number) (incremental : Bool) (stopAt : Option Nat)
  | indexOne (now : Number) (path : Path)
  | removeFile (now : Number) (path : Path)
  | changeScope (now : Number) (changes : List ScopeChange)
  | clear (now : Number)
  | outside (host : Host)

namespace Project

/-- An operation that does not get the lock changes nothing of the project. -/
theorem guarded_of_refused {α : Type} {p : Project} {h : Host}
    (body : Disk → Project × Disk × Except Fault α) {f : LockFault}
    (hlock : (h.acquire p.writer (lockFile p.indexFile)).2 = .error f) :
    (p.guarded h body).project = p ∧ (p.guarded h body).host.disk = p.seen h ∧
      (p.guarded h body).answer = .error (.lock f (lockFile p.indexFile)) := by
  unfold guarded seen
  dsimp only
  split
  · next h' f' hacq =>
    rw [hacq] at hlock ⊢
    cases hlock
    exact ⟨rfl, rfl, rfl⟩
  · next h' hacq =>
    rw [hacq] at hlock
    cases hlock

/-- An operation that gets the lock is done on the disk that it sees. -/
theorem guarded_of_granted {α : Type} {p : Project} {h : Host}
    (body : Disk → Project × Disk × Except Fault α)
    (hlock : (h.acquire p.writer (lockFile p.indexFile)).2 = .ok ()) :
    (p.guarded h body).project = (body (p.seen h)).1 ∧
      (p.guarded h body).host.disk = (body (p.seen h)).2.1 ∧
      (p.guarded h body).answer = (body (p.seen h)).2.2 := by
  unfold guarded seen
  dsimp only
  split
  · next h' f' hacq =>
    rw [hacq] at hlock
    cases hlock
  · next h' hacq =>
    rw [hacq]
    exact ⟨rfl, rfl, rfl⟩

/-- Two states of one project: what says where it is and how it is indexed has not changed. -/
structure SamePlace (p q : Project) : Prop where
  root : q.root = p.root
  indexFile : q.indexFile = p.indexFile
  indexing : q.settings.indexing = p.settings.indexing

theorem SamePlace.refl (p : Project) : SamePlace p p := ⟨rfl, rfl, rfl⟩

theorem SamePlace.trans {p q r : Project} (hpq : SamePlace p q) (hqr : SamePlace q r) :
    SamePlace p r :=
  ⟨hqr.root.trans hpq.root, hqr.indexFile.trans hpq.indexFile, hqr.indexing.trans hpq.indexing⟩

theorem samePlace_persist (p : Project) (now : Number) (d : Disk) :
    SamePlace p (p.persist now d).1 := ⟨rfl, rfl, rfl⟩

theorem samePlace_withFiles (p : Project) (files : Roster String FileEntry) :
    SamePlace p (p.withFiles files) := ⟨rfl, rfl, rfl⟩

theorem samePlace_withIndex (p : Project) (index : ProjectIndex) :
    SamePlace p { p with index } := ⟨rfl, rfl, rfl⟩

theorem samePlace_withScope (p : Project) (index : ProjectIndex) (scope : Scope) :
    SamePlace p { p with index, settings := { p.settings with scope } } := ⟨rfl, rfl, rfl⟩

@[simp]
theorem files_persist (p : Project) (now : Number) (d : Disk) :
    (p.persist now d).1.index.files = p.index.files := rfl

@[simp]
theorem files_withFiles (p : Project) (files : Roster String FileEntry) :
    (p.withFiles files).index.files = files := rfl

/-- The index of a project is kept at a path of names. -/
structure Placed (p : Project) : Prop where
  root : ∀ n ∈ p.root, Path.IsName n
  indexFile : p.indexFile = usualIndexFile p.root p.settings
  folder : p.settings.indexing.folder = Settings.usualFolder

/-- A project stays placed while it is where it is. -/
theorem Placed.of_samePlace {p q : Project} (hp : p.Placed) (h : SamePlace p q) : q.Placed where
  root := h.root ▸ hp.root
  indexFile := by
    rw [h.indexFile, hp.indexFile, usualIndexFile, usualIndexFile, h.root, h.indexing]
  folder := h.indexing ▸ hp.folder

theorem Placed.indexFile_parts {p : Project} (hp : p.Placed) :
    p.indexFile.parts = p.root ++ [".polyindex", "index.json"] := by
  have hfolder : Path.ofString Settings.usualFolder = ⟨"", [".polyindex"]⟩ := by decide
  have hname : Path.ofString "index.json" = ⟨"", ["index.json"]⟩ := by decide
  rw [hp.indexFile, usualIndexFile, hp.folder, hfolder, hname]
  simp [rootPath, Path.join, Path.isAbsolute]

/-- The path of the index is made of proper names. -/
theorem Placed.names_indexFile {p : Project} (hp : p.Placed) :
    ∀ n ∈ p.indexFile.parts, Path.IsName n := by
  intro n hn
  rw [hp.indexFile_parts, List.mem_append] at hn
  rcases hn with hn | hn
  · exact hp.root n hn
  · have hall : ∀ m ∈ [".polyindex", "index.json"], Path.IsName m := by decide
    exact hall n hn

/-- So is that of its lock file. -/
theorem Placed.names_lockFile {p : Project} (hp : p.Placed) :
    ∀ n ∈ (lockFile p.indexFile).parts, Path.IsName n := by
  have hparts : (lockFile p.indexFile).parts = p.root ++ [".polyindex", "index.lock"] := by
    have hsuffix : Path.splitSuffix "index.json" = ("index", ".json") := by decide
    rw [lockFile, Path.withSuffix, Path.stem, Path.name, hp.indexFile_parts]
    rw [show p.root ++ [".polyindex", "index.json"] =
      (p.root ++ [".polyindex"]) ++ ["index.json"] by simp]
    rw [List.dropLast_concat, List.getLast?_concat]
    simp [hsuffix]
  intro n hn
  rw [hparts, List.mem_append] at hn
  rcases hn with hn | hn
  · exact hp.root n hn
  · have hall : ∀ m ∈ [".polyindex", "index.lock"], Path.IsName m := by decide
    exact hall n hn

/-- Asking for the lock of the index keeps a disk plain. -/
theorem Placed.plain_seen {p : Project} (hp : p.Placed) {h : Host} (hd : h.disk.Plain) :
    (p.seen h).Plain := by
  unfold seen Host.acquire
  dsimp only
  split
  · exact hd
  · split
    · exact hd
    · next disk hmade =>
      have hplain := hd.makeLockFile hp.names_lockFile hmade
      split
      · exact hplain
      · exact hplain

/-- Storing the index keeps a disk plain. -/
theorem Placed.plain_persist {p : Project} (hp : p.Placed) (now : Number) {d : Disk}
    (hd : d.Plain) : (p.persist now d).2.Plain := by
  have hne : p.indexFile.parts ≠ [] := by
    rw [hp.indexFile_parts]
    simp
  exact hd.save hp.names_indexFile hne _

/-- What an operation leaves behind is tidy: the same project on a plain disk. -/
structure Tidy {α : Type} (p : Project) (result : Project × Disk × α) : Prop where
  samePlace : SamePlace p result.1
  plain : result.2.1.Plain

theorem tidy_unchanged {α : Type} (p : Project) {d : Disk} (hd : d.Plain) (answer : α) :
    Tidy p (p, d, answer) :=
  ⟨.refl p, hd⟩

/-- Storing a state of the project is tidy. -/
theorem Placed.tidy_persist {α : Type} {p q : Project} (hp : p.Placed) (hq : SamePlace p q)
    (now : Number) {d : Disk} (hd : d.Plain) (answer : α) :
    Tidy p ((q.persist now d).1, (q.persist now d).2, answer) :=
  ⟨hq.trans (q.samePlace_persist now d), (hp.of_samePlace hq).plain_persist now hd⟩

end Project

namespace Session

variable (read : FileReader)

/-- The session that an operation leaves behind. -/
def ofReply {α : Type} (r : Project.Reply α) : Session := ⟨r.project, r.host⟩

/-- The session after an event. -/
def after (s : Session) : Event → Session
  | .indexAll now incremental stopAt =>
    ofReply (s.project.indexAll s.host read now incremental stopAt)
  | .indexOne now path => ofReply (s.project.indexOne s.host read now path)
  | .removeFile now path => ofReply (s.project.removeFile s.host now path)
  | .changeScope now changes => ofReply (s.project.changeScope s.host now changes)
  | .clear now => ofReply (s.project.clear s.host now)
  | .outside host => { s with host }

/-- The session after some events. -/
def run (s : Session) (events : List Event) : Session :=
  events.foldl (after read) s

/-- A project in its usual place on a plain disk. -/
structure Usual (s : Session) : Prop where
  placed : s.project.Placed
  plain : s.host.disk.Plain

/-- What comes from outside leaves a plain disk. -/
def Event.IsPlain : Event → Prop
  | .outside host => host.disk.Plain
  | _ => True

/-- A tidy operation under the lock keeps a session usual. -/
theorem Usual.guarded {α : Type} {s : Session} (hs : s.Usual)
    {body : Disk → Project × Disk × Except Project.Fault α}
    (hbody : ∀ d, d.Plain → Project.Tidy s.project (body d)) :
    (ofReply (s.project.guarded s.host body)).Usual ∧
      Project.SamePlace s.project (ofReply (s.project.guarded s.host body)).project := by
  have hseen := hs.placed.plain_seen hs.plain
  cases hlock : (s.host.acquire s.project.writer (lockFile s.project.indexFile)).2 with
  | error f =>
      obtain ⟨hp, hd, -⟩ := Project.guarded_of_refused body hlock
      have hsame : Project.SamePlace s.project (s.project.guarded s.host body).project := by
        rw [hp]
        exact .refl s.project
      exact ⟨⟨hs.placed.of_samePlace hsame, hd ▸ hseen⟩, hsame⟩
  | ok _ =>
      obtain ⟨hp, hd, -⟩ := Project.guarded_of_granted body hlock
      obtain ⟨hsame, hplain⟩ := hbody _ hseen
      have hsame : Project.SamePlace s.project (s.project.guarded s.host body).project :=
        hp ▸ hsame
      exact ⟨⟨hs.placed.of_samePlace hsame, hd ▸ hplain⟩, hsame⟩

/-- **One event.** It keeps a session usual and the project in its place. -/
theorem Usual.after {s : Session} (hs : s.Usual) {event : Event} (hevent : event.IsPlain) :
    (s.after read event).Usual ∧
      Project.SamePlace s.project (s.after read event).project := by
  have hp := hs.placed
  cases event with
  | indexAll now incremental stopAt =>
      refine hs.guarded fun d hd => ?_
      split
      · exact Project.tidy_unchanged _ hd _
      · exact hp.tidy_persist (Project.samePlace_withFiles _ _) now hd _
  | indexOne now path =>
      refine hs.guarded fun d hd => ?_
      split
      · exact Project.tidy_unchanged _ hd _
      · exact hp.tidy_persist (Project.samePlace_withFiles _ _) now hd _
  | removeFile now path =>
      refine hs.guarded fun d hd => ?_
      split
      · exact Project.tidy_unchanged _ hd _
      · split
        · exact hp.tidy_persist (Project.samePlace_withFiles _ _) now hd _
        · exact Project.tidy_unchanged _ hd _
  | changeScope now changes =>
      refine hs.guarded fun d hd => ?_
      split
      · exact hp.tidy_persist (Project.samePlace_withScope _ _ _) now hd _
      · exact Project.tidy_unchanged _ hd _
      · exact Project.tidy_unchanged _ hd _
  | clear now =>
      refine hs.guarded fun d hd => ?_
      exact hp.tidy_persist (Project.samePlace_withIndex _ _) now hd _
  | outside host => exact ⟨⟨hp, hevent⟩, .refl _⟩

/-- **A whole session** stays usual, and its project stays in its place. -/
theorem Usual.run {s : Session} (hs : s.Usual) {events : List Event}
    (hevents : ∀ event ∈ events, event.IsPlain) :
    (s.run read events).Usual ∧ Project.SamePlace s.project (s.run read events).project := by
  induction events generalizing s with
  | nil => exact ⟨hs, .refl _⟩
  | cons event events ih =>
      obtain ⟨hevent, hevents⟩ := List.forall_mem_cons.mp hevents
      obtain ⟨hafter, hsame⟩ := hs.after read hevent
      obtain ⟨hrun, hsame'⟩ := ih hafter hevents
      exact ⟨hrun, hsame.trans hsame'⟩

end Session

end Concordance
