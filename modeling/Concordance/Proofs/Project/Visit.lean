import Concordance.Proofs.Disk.Changed
import Concordance.Proofs.Project.Gathered
import Concordance.Proofs.Project.Housing
import Concordance.Proofs.Scan.Found

/-!
# Visits to single files

A file that is indexed by itself is visited: the project takes the lock, reads the file, and stores
the index. After a visit the lock can be taken again, and only the places of the index have changed
(`Session.Visiting.after`). So on every visit a file is read as it was at the start, unless it is in
one of these places (`Session.Visiting.entryFor?_eq`).
-/

namespace Concordance

/-! ### The lock after an operation -/

/-- A writer can take the lock of a file. -/
structure Host.Free (h : Host) (who : Nat) (file : Path) : Prop where
  notHeld : (h.lockOf file).holds who = false
  notTaken : (h.lockOf file).taken = false

/-- A lock that is free is taken as soon as its file is there. -/
theorem Host.Free.acquire_eq {h : Host} {who : Nat} {file : Path} (hfree : h.Free who file)
    {d : Disk} (hmade : makeLockFile h.disk file = .ok d) :
    h.acquire who file = ({ h with
      disk := d
      locks := h.locks.put file ⟨true, who :: (h.lockOf file).holders⟩ }, .ok ()) := by
  have htake : (h.lockOf file).acquire who = .ok ⟨true, who :: (h.lockOf file).holders⟩ := by
    rw [Lock.acquire, hfree.notHeld, hfree.notTaken]
    rfl
  unfold Host.acquire
  dsimp only
  rw [hfree.notHeld, if_neg Bool.false_ne_true, hmade]
  dsimp only
  rw [htake]

/-- A lock that was taken was free, and its file was made. -/
theorem Host.of_acquire {h : Host} {who : Nat} {file : Path}
    (hlock : (h.acquire who file).2 = .ok ()) :
    h.Free who file ∧ makeLockFile h.disk file = .ok (h.acquire who file).1.disk := by
  have hfree : h.Free who file ∧ ∃ d, makeLockFile h.disk file = .ok d := by
    unfold Host.acquire at hlock
    dsimp only at hlock
    split at hlock
    · cases hlock
    · next hheld =>
      split at hlock
      · cases hlock
      · next disk hmade =>
        split at hlock
        · cases hlock
        · next lock htake =>
          rw [Lock.acquire, if_neg hheld] at htake
          split at htake
          · cases htake
          · next htaken => exact ⟨⟨by simpa using hheld, by simpa using htaken⟩, disk, hmade⟩
  obtain ⟨hfree, d, hmade⟩ := hfree
  exact ⟨hfree, by rw [hfree.acquire_eq hmade, hmade]⟩

/-- After an operation under the lock, the lock can be taken again. -/
theorem Project.free_guarded {α : Type} {p : Project} {h : Host}
    (body : Disk → Project × Disk × Except Fault α)
    (hlock : (h.acquire p.writer (lockFile p.indexFile)).2 = .ok ()) :
    (p.guarded h body).host.Free p.writer (lockFile p.indexFile) := by
  obtain ⟨hfree, hmade⟩ := Host.of_acquire hlock
  have hafter : (p.guarded h body).host.lockOf (lockFile p.indexFile) =
      ⟨false, (h.lockOf (lockFile p.indexFile)).holders⟩ := by
    unfold guarded
    dsimp only
    rw [hfree.acquire_eq hmade]
    simp [Host.release, Host.lockOf, Roster.get?_put, Lock.release, Lock.holds]
  refine ⟨?_, ?_⟩
  · rw [hafter]
    exact hfree.notHeld
  · rw [hafter]

/-! ### The scanner -/

/-- The rules of a project can be loaded if they are a text. -/
theorem exists_load_iff {d : Disk} {root : List String} :
    (∃ rules, IgnoreRules.load d root = .ok rules) ↔
      ∀ contents, d.read? (root ++ [".gitignore"]) = some contents →
        (Utf8.decode? contents).isSome := by
  rw [IgnoreRules.load]
  cases d.read? (root ++ [".gitignore"]) with
  | none => simp
  | some contents =>
      cases htext : Utf8.decode? contents with
      | none => simp [htext]
      | some text => simp [htext]

/-- A scanner can be made unless there are rules to respect that are no text. -/
theorem Project.exists_scanner_iff {p : Project} {d : Disk} :
    (∃ scanner, p.scanner d = .ok scanner) ↔
      (p.settings.indexing.respectsIgnoreFile = true →
        ∀ contents, d.read? (p.root ++ [".gitignore"]) = some contents →
          (Utf8.decode? contents).isSome) := by
  rw [← exists_load_iff]
  unfold scanner
  dsimp only
  split
  · next hrespects =>
    rw [hrespects]
    constructor
    · rintro ⟨scanner, hscanner⟩ -
      obtain ⟨rules, hrules, -⟩ := Attempt.exists_of_bind_eq_ok hscanner
      exact ⟨rules, hrules⟩
    · intro hload
      obtain ⟨rules, hrules⟩ := hload rfl
      rw [hrules]
      exact ⟨_, rfl⟩
  · next hrespects => exact ⟨fun _ h => absurd h hrespects, fun _ => ⟨_, rfl⟩⟩

namespace Session

variable {read : FileReader} {start s : Session} {folder : List String}

/-- A session in which files are visited one at a time: the project is in its place and gets the
lock, and only the places of the index have changed since the start. -/
structure Visiting (start s : Session) (folder : List String) : Prop where
  samePlace : Project.SamePlace start.project s.project
  granted : s.isGranted = true
  changed : Disk.Changed (Disk.placesOf start.project.indexFile folder) start.seen s.seen

theorem visiting_refl (hgranted : start.isGranted = true) : Visiting start start folder :=
  ⟨.refl _, hgranted, .refl _⟩

/-- A project that is granted the lock gets it. -/
theorem acquire_of_isGranted (h : s.isGranted = true) :
    (s.host.acquire s.project.writer (lockFile s.project.indexFile)).2 = .ok () := by
  unfold isGranted at h
  cases hlock : (s.host.acquire s.project.writer (lockFile s.project.indexFile)).2 with
  | error f =>
      rw [hlock] at h
      cases h
  | ok _ => rfl

/-- A project that gets the lock sees a disk that is ready for it, without links if there were
none. -/
theorem ready_seen (hdisk : s.host.disk.Linkless)
    (hpath : Disk.Brings Path.IsName s.project.indexFile.parts) (h : s.isGranted = true) :
    s.seen.Linkless ∧ ∃ folder, s.seen.Ready s.project.indexFile folder := by
  obtain ⟨-, hmade⟩ := Host.of_acquire (acquire_of_isGranted h)
  exact hdisk.ready_of_makeLockFile hpath hmade

/-- What becomes of a session when one file is indexed. -/
theorem indexOne_cases (read : FileReader) (h : s.isGranted = true) (now : Number) (path : Path) :
    match s.project.entryFor? read s.seen path with
    | none => Idle s (s.after read (.indexOne now path))
    | some (id, e) => Stored s (s.after read (.indexOne now path))
        (s.project.withFiles (s.project.index.files.put id e)) now := by
  have hcases := s.after_cases read (show (Event.indexOne now path).IsOwn from trivial)
  rw [change?, if_pos h, Event.change?] at hcases
  cases hentry : s.project.entryFor? read s.seen path with
  | none =>
      rw [hentry] at hcases
      exact hcases
  | some found =>
      rw [hentry] at hcases
      exact hcases

/-- An operation that frees the lock, and changed only the places of the index, can be followed by
another. -/
theorem Visiting.goOn (hready : start.seen.Ready start.project.indexFile folder)
    (hs : Visiting start s folder) {s' : Session}
    (hsame : Project.SamePlace s.project s'.project) (hwriter : s'.project.writer = s.project.writer)
    (hfree : s'.host.Free s.project.writer (lockFile s.project.indexFile))
    (hchanged : Disk.Changed (Disk.placesOf start.project.indexFile folder) s.seen s'.host.disk) :
    Visiting start s' folder := by
  have hchanged := hs.changed.trans hchanged
  obtain ⟨d, hmade, hlocked⟩ := (hchanged.ready hready).makeLockFile
  have hplace := hs.samePlace.trans hsame
  rw [← hwriter, ← hsame.indexFile, hplace.indexFile] at hfree
  have hacquire := hfree.acquire_eq hmade
  have hseen : s'.seen = d := by
    rw [Session.seen, Project.seen, hplace.indexFile, hacquire]
  refine ⟨hplace, ?_, ?_⟩
  · rw [isGranted, hplace.indexFile, hacquire]
    rfl
  · rw [hseen]
    exact hchanged.trans hlocked

/-- Storing a state of the project changes only the places of the index. -/
theorem Visiting.changed_stored (hready : start.seen.Ready start.project.indexFile folder)
    (hs : Visiting start s folder) {s' : Session} {q : Project} {now : Number}
    (hstored : Stored s s' q now) (hq : Project.SamePlace s.project q) :
    Disk.Changed (Disk.placesOf start.project.indexFile folder) s.seen s'.host.disk := by
  have hseat := hs.changed.seat hready.toSeat
  rw [hstored.disk, (hs.samePlace.trans hq).indexFile]
  exact hseat.changed_save _

/-- **One visit.** The project is left in its place and can go on. -/
theorem Visiting.after (hready : start.seen.Ready start.project.indexFile folder)
    (hs : Visiting start s folder) (now : Number) (path : Path) :
    Visiting start (s.after read (.indexOne now path)) folder := by
  have hfree : (s.after read (.indexOne now path)).host.Free s.project.writer
      (lockFile s.project.indexFile) :=
    Project.free_guarded _ (acquire_of_isGranted hs.granted)
  have hcases := indexOne_cases read hs.granted now path
  split at hcases
  · refine hs.goOn hready ?_ ?_ hfree ?_
    · rw [hcases.project]
      exact .refl _
    · rw [hcases.project]
    · rw [hcases.disk]
      exact .refl _
  · refine hs.goOn hready ?_ ?_ hfree (hs.changed_stored hready hcases ⟨rfl, rfl, rfl⟩)
    · rw [hcases.project]
      exact ⟨rfl, rfl, rfl⟩
    · rw [hcases.project]
      rfl

/-- A scanner can be made on every visit, if it could be made at the start. -/
theorem Visiting.exists_scanner (hs : Visiting start s folder)
    (hroot : ∀ n ∈ start.project.root, Path.IsName n)
    (hfolder : ∃ inner, start.seen.at? start.project.root = some (.folder inner))
    (hplain : start.seen.Plain) (h : ∃ scanner, start.project.scanner start.seen = .ok scanner) :
    ∃ scanner, s.project.scanner s.seen = .ok scanner := by
  rw [Project.exists_scanner_iff] at h ⊢
  rw [hs.samePlace.indexing, hs.samePlace.root]
  intro hrespects
  exact hs.changed.decodes (Disk.not_mem_of_names hroot) hfolder (by decide) (hplain.noLink _)
    (h hrespects)

/-- **A file that is visited** is read as it was found, and gets its entry under its id. -/
theorem Visiting.entryFor?_eq (hs : Visiting start s folder) {f : Scan.Found}
    (hf : Scan.Stands start.project.root start.seen f)
    (hplace : start.project.root ++ f.way ∉ Disk.placesOf start.project.indexFile folder)
    (hplain : start.seen.Plain)
    (hscanner : ∃ scanner, start.project.scanner start.seen = .ok scanner) {path : Path}
    (hpath : start.project.absolute path = ⟨"/", start.project.root ++ f.way⟩) :
    s.project.entryFor? read s.seen path =
      match Project.readFound read start.project.root f with
      | .ok (some e) => some (f.id, e)
      | _ => none := by
  have hroot : ∀ n ∈ start.project.root, Path.IsName n := fun n hn =>
    hf.names n (List.mem_append_left _ hn)
  obtain ⟨scanner, hscanner⟩ := hs.exists_scanner hroot hf.folder hplain hscanner
  have hup := Disk.not_mem_of_names hf.names
  have hfile := hs.changed.at?_file hplace hf.file
  have hread : s.seen.read? (start.project.root ++ f.way) = some f.contents :=
    Disk.read?_of_locate (Disk.locate_of_at? hup (by simp) hfile) hfile
  have habsolute : s.project.absolute path = ⟨"/", start.project.root ++ f.way⟩ := by
    rw [← hpath, Project.absolute, Project.absolute, hs.samePlace.root]
  have hid : scanner.id? s.seen (start.project.root ++ f.way) = some f.id := by
    have hscan := (Project.root_of_scanner hscanner).trans hs.samePlace.root
    rw [← hscan] at hup hfile ⊢
    rw [Scanner.id?_of_at? hup hfile, hf.id]
  unfold Project.entryFor? Project.idOf
  rw [hscanner, habsolute]
  dsimp only
  rw [hid, hread]
  rfl

end Session

end Concordance
