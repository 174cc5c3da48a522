import Concordance.Proofs.Project.Storing
import Concordance.Proofs.Settings

/-!
# Where the index and the settings are kept

Before a project does anything it makes the folder of its index and the file of its lock; what it
stores then goes to the place of the index, by way of the draft. The file that is stored is found
again as long as no link stands in these two places (`Disk.Seated`), and the operations keep it so.

The settings are read from a file of their own, which may be a link. It could lead to one of the
places that change. A lock file is empty and a stored index is no document, so from both of them
come the default settings; and the draft is gone after a save. Hence the settings stay what they
are, if the file does not lead to the draft from the start (`Disk.Housed`).
-/

namespace Concordance

namespace Disk

/-! ### What is read through a path -/

/-- **What a change in one place does to a reader.** A reader that takes what is written there for
nothing does not notice the change. -/
theorem ChangedAt.reader_eq {α : Type} (reader : Option Bytes → α) {way names : List String}
    {d d' : Disk} (h : ChangedAt way d d')
    (hd : d.locate names = .ok way → reader (d.read? names) = reader none)
    (hd' : d'.locate names = .ok way → reader (d'.read? names) = reader none) :
    reader (d'.read? names) = reader (d.read? names) := by
  have hnone : ∀ {d d' : Disk}, ChangedAt way d d' → d.locate names = .ok way →
      d'.locate names ≠ .ok way → d'.read? names = none := by
    intro d d' h hway hother
    cases hl : d'.locate names with
    | error f => exact read?_of_locate_error hl
    | ok stop =>
        have hne : stop ≠ way := fun heq => hother (by rw [hl, heq])
        have hback := h.symm.locate hl hne
        rw [hway] at hback
        exact absurd (Except.ok.inj hback).symm hne
  by_cases hway : d.locate names = .ok way
  · rw [hd hway]
    by_cases hway' : d'.locate names = .ok way
    · exact hd' hway'
    · rw [hnone h hway hway']
  · by_cases hway' : d'.locate names = .ok way
    · rw [hd' hway', hnone h.symm hway' hway]
    · rw [h.read?_eq hway hway']

/-- What is read is still read after all was kept. -/
theorem KeptOff.read? {d d' : Disk} (h : KeptOff (fun _ => False) d d') {names : List String}
    {contents : Bytes} (hread : d.read? names = some contents) :
    d'.read? names = some contents := by
  obtain ⟨way, hway, hfile⟩ := exists_way_of_read? hread
  obtain ⟨e, he, halike⟩ := h way _ id hfile
  cases halike with
  | file contents => exact read?_of_locate (h.locate hway) he

/-! ### The lock -/

/-- The lock file was there, or it was made in some place where nothing stood. -/
def Locked (d d' : Disk) : Prop :=
  d' = d ∨ ∃ way, ChangedAt way d d' ∧ d.at? way = none ∧ d'.at? way = some (.file [])

/-- A reader that takes an empty file for nothing does not notice the lock. -/
theorem Locked.reader_eq {α : Type} {reader : Option Bytes → α}
    (hempty : reader (some []) = reader none) {d d' : Disk} (h : Locked d d')
    (names : List String) : reader (d'.read? names) = reader (d.read? names) := by
  rcases h with rfl | ⟨way, hchanged, hnone, hfile⟩
  · rfl
  · refine hchanged.reader_eq reader (fun hway => ?_) fun hway => ?_
    · obtain ⟨e, he⟩ := exists_at?_of_locate hway
      rw [hnone] at he
      cases he
    · rw [read?_of_locate hway hfile, hempty]

/-- What is read is still read once the lock file is there. -/
theorem Locked.read? {d d' : Disk} (h : Locked d d') {names : List String} {contents : Bytes}
    (hread : d.read? names = some contents) : d'.read? names = some contents := by
  rcases h with rfl | ⟨way, hchanged, hnone, -⟩
  · exact hread
  · obtain ⟨stop, hstop, hfile⟩ := exists_way_of_read? hread
    have hne : stop ≠ way := by
      rintro rfl
      rw [hnone] at hfile
      cases hfile
    have hrel := hchanged.alike stop hne
    rw [hfile] at hrel
    generalize hat : d'.at? stop = x at hrel
    cases hrel with
    | some halike =>
        cases halike
        exact read?_of_locate (hchanged.locate hstop hne) hat

/-- Making the lock file leaves a file its seat. -/
theorem Locked.seat {d d' : Disk} (h : Locked d d') {file : Path} {folder : List String}
    (hs : d.Seat file folder) : d'.Seat file folder := by
  rcases h with rfl | ⟨way, hchanged, -, -⟩
  · exact hs
  · exact hs.changedAt hchanged

/-- Making a lock file makes its folders, and then changes nothing but that file. -/
theorem locked_of_makeLockFile {d d' : Disk} {file : Path}
    (h : Host.makeLockFile d file = .ok d') :
    ∃ made, d.makeFolders file.parent.parts = .ok made ∧ Locked made d' := by
  unfold Host.makeLockFile at h
  obtain ⟨made, hmade, h⟩ := Attempt.exists_of_bind_eq_ok h
  refine ⟨made, hmade, ?_⟩
  split at h
  · cases h
    exact Or.inl rfl
  · next hnofile =>
    obtain ⟨way, hchanged, hfile, hfree⟩ := exists_changedAt_of_write h
    rcases hfree with hnone | ⟨old, hway, hold⟩
    · exact Or.inr ⟨way, hchanged, hnone, hfile⟩
    · refine absurd ?_ (hnofile old)
      unfold entry?
      rw [hway]
      exact hold

end Disk

/-- **What asking for the lock does to a disk.** Nothing, or it makes the folder of the index and
then the lock file. -/
theorem Project.seen_cases (p : Project) (h : Host) :
    p.seen h = h.disk ∨
      ∃ made, h.disk.makeFolders p.indexFile.parent.parts = .ok made ∧
        Disk.Locked made (p.seen h) := by
  unfold seen Host.acquire
  dsimp only
  split
  · exact Or.inl rfl
  · split
    · exact Or.inl rfl
    · next disk hdisk =>
      obtain ⟨made, hmade, hlocked⟩ := Disk.locked_of_makeLockFile hdisk
      rw [lockFile, Path.parent_withSuffix] at hmade
      right
      refine ⟨made, hmade, ?_⟩
      split <;> exact hlocked

/-- Asking for the lock leaves every file as it can be read. -/
theorem Project.read?_seen {p : Project} {h : Host} {names : List String} {contents : Bytes}
    (hread : h.disk.read? names = some contents) : (p.seen h).read? names = some contents := by
  rcases p.seen_cases h with hsame | ⟨made, hmade, hlocked⟩
  · rw [hsame]
    exact hread
  · exact hlocked.read? ((Disk.keptOff_makeFolders hmade).read? hread)

namespace Disk

/-! ### The place of the index -/

/-- Once the folder of a file is made, no link stands in the place of the file or of its draft. -/
def Seated (d : Disk) (file : Path) : Prop :=
  ∀ made, d.makeFolders file.parent.parts = .ok made → ∃ folder, made.Seat file folder

theorem Seat.seated {d : Disk} {file : Path} {folder : List String} (hs : d.Seat file folder) :
    d.Seated file := by
  intro made hmade
  rw [hs.makeFolders] at hmade
  cases hmade
  exact ⟨folder, hs⟩

/-- The lock leaves an index where it is. -/
theorem Seated.seen {p : Project} {h : Host} (hs : h.disk.Seated p.indexFile) :
    (p.seen h).Seated p.indexFile := by
  rcases p.seen_cases h with hsame | ⟨made, hmade, hlocked⟩
  · rw [hsame]
    exact hs
  · obtain ⟨folder, hseat⟩ := hs made hmade
    exact (hlocked.seat hseat).seated

/-- What was saved is read, and the index has its seat. -/
theorem Seated.save {d : Disk} {file : Path} (hs : d.Seated file) (hparts : file.parts ≠ [])
    (hname : file.name ≠ "..") {index : ProjectIndex} (hsaved : (index.save d file).2 = true) :
    (∃ folder, (index.save d file).1.Seat file folder) ∧
      (index.save d file).1.read? file.parts = some (Utf8.bytes index.stored) := by
  obtain ⟨made, hmade, heq⟩ := exists_save_eq hsaved
  obtain ⟨folder, hseat⟩ := hs made hmade
  rw [heq] at hsaved ⊢
  obtain ⟨hseat', hread⟩ := hseat.read?_save hparts hname hsaved
  exact ⟨⟨folder, hseat'⟩, hread⟩

end Disk

/-! ### The settings beside it -/

/-- The path of the file that keeps the settings. -/
def Settings.way (root : List String) : List String :=
  (Settings.file ⟨"/", root⟩ Settings.usualFolder).parts

/-- The settings in what a file may hold. -/
def Settings.ofFile : Option Bytes → Except Settings.Fault Settings
  | some contents => Settings.ofBytes contents
  | none => .ok {}

/-- Settings are loaded from what their file holds. -/
theorem Settings.load_eq (d : Disk) (root : List String) :
    Settings.load d root = Settings.ofFile (d.read? (Settings.way root)) := by
  rw [Settings.load, Settings.way]
  cases d.read? (Settings.file ⟨"/", root⟩ Settings.usualFolder).parts <;> rfl

/-- The index in what a file may hold. -/
def ProjectIndex.ofFile (project : String) : Option Bytes → ProjectIndex
  | some contents => ProjectIndex.ofStored project contents
  | none => ProjectIndex.fresh project

/-- So is an index. -/
theorem ProjectIndex.load_eq (d : Disk) (file : Path) (project : String) :
    ProjectIndex.load d file project = ProjectIndex.ofFile project (d.read? file.parts) := by
  rw [ProjectIndex.load]
  cases d.read? file.parts <;> rfl

/-- An empty file holds no index. -/
theorem ProjectIndex.ofFile_nil (project : String) :
    ProjectIndex.ofFile project (some []) = ProjectIndex.ofFile project none := by
  have hnone : ProjectIndex.ofStored? [] = none := by decide
  rw [ofFile, ofStored, hnone, ofFile]

namespace Disk

/-- Asking for the lock leaves an index that has its seat as it is. -/
theorem Seat.seen {p : Project} {h : Host} {folder : List String}
    (hs : h.disk.Seat p.indexFile folder) (project : String) :
    (p.seen h).Seat p.indexFile folder ∧
      ProjectIndex.load (p.seen h) p.indexFile project =
        ProjectIndex.load h.disk p.indexFile project := by
  rcases p.seen_cases h with hsame | ⟨made, hmade, hlocked⟩
  · rw [hsame]
    exact ⟨hs, rfl⟩
  · rw [hs.makeFolders] at hmade
    cases hmade
    refine ⟨hlocked.seat hs, ?_⟩
    rw [ProjectIndex.load_eq, ProjectIndex.load_eq]
    exact hlocked.reader_eq (ProjectIndex.ofFile_nil project) _

/-- The seat of an index in a folder, with the settings that are read beside it. Where the settings
are read from one of the two places of the index, they are the defaults. -/
structure HousedIn (d : Disk) (root : List String) (settings : Settings) (file : Path)
    (folder : List String) : Prop where
  seat : d.Seat file folder
  loads : Settings.load d root = .ok settings
  draft : d.locate (Settings.way root) = .ok (folder ++ [(ProjectIndex.draftOf file).name]) →
    settings = {}
  index : d.locate (Settings.way root) = .ok (folder ++ [file.name]) → settings = {}

variable {d d' : Disk} {root folder way place : List String} {settings : Settings} {file : Path}

/-- A path that leads to a place after a change elsewhere led there before. -/
theorem ChangedAt.quiet (h : ChangedAt way d d')
    (hplace : d.locate (Settings.way root) = .ok place → settings = {})
    (hway : d'.locate (Settings.way root) = .ok way → settings = {}) :
    d'.locate (Settings.way root) = .ok place → settings = {} := by
  intro hlocate
  by_cases heq : place = way
  · exact hway (heq ▸ hlocate)
  · exact hplace (h.symm.locate hlocate heq)

/-- The settings do not change with the lock, and the index that is stored stays the same. -/
theorem HousedIn.locked (hd : d.HousedIn root settings file folder) (h : Locked d d')
    (project : String) :
    d'.HousedIn root settings file folder ∧
      ProjectIndex.load d' file project = ProjectIndex.load d file project := by
  have hsettings : Settings.load d' root = .ok settings := by
    rw [← hd.loads, Settings.load_eq, Settings.load_eq]
    exact h.reader_eq Settings.ofBytes_nil _
  have hload : ProjectIndex.load d' file project = ProjectIndex.load d file project := by
    rw [ProjectIndex.load_eq, ProjectIndex.load_eq]
    exact h.reader_eq (ProjectIndex.ofFile_nil project) _
  refine ⟨?_, hload⟩
  have hseat := h.seat hd.seat
  rcases h with rfl | ⟨way, hchanged, -, hempty⟩
  · exact hd
  · have hway : d'.locate (Settings.way root) = .ok way → settings = {} := by
      intro hlocate
      rw [Settings.load_eq, read?_of_locate hlocate hempty, Settings.ofFile,
        Settings.ofBytes_nil] at hsettings
      exact (Except.ok.inj hsettings).symm
    exact ⟨hseat, hsettings, hchanged.quiet hd.draft hway, hchanged.quiet hd.index hway⟩

/-- **A save leaves the settings alone.** -/
theorem HousedIn.save (hd : d.HousedIn root settings file folder) {index : ProjectIndex}
    (hsaved : (index.save d file).2 = true) :
    (index.save d file).1.HousedIn root settings file folder := by
  obtain ⟨mid, hdraft, hgone, hfile, hstored⟩ := hd.seat.of_save hsaved
  generalize (index.save d file).1 = saved at hfile hstored
  have hseat := (hd.seat.changedAt hdraft).changedAt hfile
  -- without a draft no path leads to its place
  have hmid : ∀ {d : Disk}, d.at? (folder ++ [(ProjectIndex.draftOf file).name]) = none →
      d.locate (Settings.way root) ≠ .ok (folder ++ [(ProjectIndex.draftOf file).name]) := by
    intro d hnone hlocate
    obtain ⟨e, he⟩ := exists_at?_of_locate hlocate
    rw [hnone] at he
    cases he
  have hmidIndex := hdraft.quiet hd.index fun hlocate => absurd hlocate (hmid hgone)
  have hmidSettings : Settings.load mid root = .ok settings := by
    have heq : Settings.ofFile (mid.read? (Settings.way root)) = _ :=
      hdraft.reader_eq Settings.ofFile
        (fun hlocate => by rw [← Settings.load_eq, hd.loads, hd.draft hlocate]; rfl)
        (fun hlocate => absurd hlocate (hmid hgone))
    rw [Settings.load_eq, heq, ← Settings.load_eq, hd.loads]
  have hdefault : saved.locate (Settings.way root) = .ok (folder ++ [file.name]) →
      Settings.ofFile (saved.read? (Settings.way root)) = .ok {} := by
    intro hlocate
    rw [read?_of_locate hlocate hstored]
    exact Settings.ofBytes_stored index
  have hsettings : Settings.load saved root = .ok settings := by
    have heq : Settings.ofFile (saved.read? (Settings.way root)) = _ :=
      hfile.reader_eq Settings.ofFile
        (fun hlocate => by rw [← Settings.load_eq, hmidSettings, hmidIndex hlocate]; rfl)
        hdefault
    rw [Settings.load_eq, heq, ← Settings.load_eq, hmidSettings]
  refine ⟨hseat, hsettings, fun hlocate => ?_, fun hlocate => ?_⟩
  · have hne : folder ++ [(ProjectIndex.draftOf file).name] ≠ folder ++ [file.name] := by
      simpa using ProjectIndex.name_draftOf_ne file
    exact absurd (hfile.symm.locate hlocate hne) (hmid hgone)
  · have hloaded := hdefault hlocate
    rw [← Settings.load_eq, hsettings] at hloaded
    exact Except.ok.inj hloaded

/-- A disk on which an index and its settings have their places, once the folder of the index is
made; making it changes neither of them. -/
structure Housed (d : Disk) (root : List String) (settings : Settings) (file : Path)
    (project : String) : Prop where
  loads : Settings.load d root = .ok settings
  folder : ∀ made, d.makeFolders file.parent.parts = .ok made →
    (∃ folder, made.HousedIn root settings file folder) ∧
      ProjectIndex.load made file project = ProjectIndex.load d file project

variable {project : String}

/-- A project in its folder is housed. -/
theorem HousedIn.housed (hd : d.HousedIn root settings file folder) :
    d.Housed root settings file project := by
  refine ⟨hd.loads, fun made hmade => ?_⟩
  rw [hd.seat.makeFolders] at hmade
  cases hmade
  exact ⟨⟨folder, hd⟩, rfl⟩

/-- Asking for the lock keeps an index and its settings as they are. -/
theorem Housed.seen {p : Project} {h : Host}
    (hd : h.disk.Housed root settings p.indexFile project) :
    (p.seen h).Housed root settings p.indexFile project ∧
      ProjectIndex.load (p.seen h) p.indexFile project =
        ProjectIndex.load h.disk p.indexFile project := by
  rcases p.seen_cases h with hsame | ⟨made, hmade, hlocked⟩
  · rw [hsame]
    exact ⟨hd, rfl⟩
  · obtain ⟨⟨folder, hmadeIn⟩, hload⟩ := hd.folder made hmade
    obtain ⟨hseen, hload'⟩ := hmadeIn.locked hlocked project
    exact ⟨hseen.housed, hload'.trans hload⟩

/-- Saving keeps the settings as they are, and the index that was saved is read. -/
theorem Housed.save (hd : d.Housed root settings file project) (hparts : file.parts ≠ [])
    (hname : file.name ≠ "..") {index : ProjectIndex} (hsaved : (index.save d file).2 = true) :
    (index.save d file).1.Housed root settings file project ∧
      (index.save d file).1.read? file.parts = some (Utf8.bytes index.stored) := by
  obtain ⟨made, hmade, heq⟩ := exists_save_eq hsaved
  obtain ⟨⟨folder, hmadeIn⟩, -⟩ := hd.folder made hmade
  rw [heq] at hsaved ⊢
  exact ⟨(hmadeIn.save hsaved).housed, (hmadeIn.seat.read?_save hparts hname hsaved).2⟩

end Disk

end Concordance
