import Concordance.Parse.File
import Concordance.Project.Query
import Concordance.Proofs.Project.Housing
import Concordance.Proofs.Project.Incremental

/-!
# Reopening a project

An open project is a copy of what is on its disk: whoever opens the project anew finds it as it is
(`Session.reopened_eq`). That holds from the moment at which a project without an index is opened,
and through every operation that can save what it stores.

The invariant is `Session.Mirrored`. Either the index on the disk is that of the project, or the
project has stored nothing yet and has the settings' scope and no files.
-/

namespace Concordance

namespace Project

/-! ### Projects without an index -/

/-- The index is usually kept in a file of one name, in the folder of the settings. -/
theorem parts_usualIndexFile (root : List String) (settings : Settings) :
    (usualIndexFile root settings).parts =
      ((rootPath root).join (.ofString settings.indexing.folder)).parts ++ ["index.json"] := by
  have hname : Path.ofString "index.json" = ⟨"", ["index.json"]⟩ := by decide
  rw [usualIndexFile, hname]
  simp [Path.join, Path.isAbsolute]

theorem name_usualIndexFile (root : List String) (settings : Settings) :
    (usualIndexFile root settings).name = "index.json" := by
  rw [Path.name, parts_usualIndexFile, List.getLast?_concat]
  rfl

/-- The path of the settings of a project. -/
theorem way_settings (root : List String) :
    Settings.way root = root ++ [".polyindex"] ++ ["config.toml"] := by
  have hfolder : Path.ofString Settings.usualFolder = ⟨"", [".polyindex"]⟩ := by decide
  have hname : Path.ofString "config.toml" = ⟨"", ["config.toml"]⟩ := by decide
  rw [Settings.way, Settings.file, hfolder, hname]
  simp [Path.join, Path.isAbsolute]

/-- By default the index stands beside the settings. -/
theorem parent_usualIndexFile_default (root : List String) :
    (usualIndexFile root {}).parent.parts = root ++ [".polyindex"] := by
  have hfolder : Path.ofString Settings.usualFolder = ⟨"", [".polyindex"]⟩ := by decide
  rw [Path.parent, parts_usualIndexFile, List.dropLast_concat]
  change ((rootPath root).join (Path.ofString Settings.usualFolder)).parts = _
  rw [hfolder]
  simp [rootPath, Path.join, Path.isAbsolute]

/-- No index is stored: once its folder is made, nothing stands in the place of the index. No link
stands in the place of its draft, and the settings are not read from there. -/
def Unindexed (d : Disk) (root : List String) (file : Path) : Prop :=
  ∀ made folder, d.makeFolders file.parent.parts = .ok made →
    made.locate file.parent.parts = .ok folder →
    made.at? (folder ++ [file.name]) = none ∧
      (∀ target, made.at? (folder ++ [(ProjectIndex.draftOf file).name]) ≠ some (.link target)) ∧
      made.locate (Settings.way root) ≠ .ok (folder ++ [(ProjectIndex.draftOf file).name])

/-- Making the folder of the index does not change the settings: they are read as before, or they
could not be read and their file is still missing. -/
theorem load_settings_makeFolders {d made : Disk} {root : List String} {settings : Settings}
    (hroot : ".." ∉ root) (hload : Settings.load d root = .ok settings)
    (hmade : d.makeFolders (usualIndexFile root settings).parent.parts = .ok made) :
    Settings.load made root = .ok settings := by
  cases hread : d.read? (Settings.way root) with
  | some contents =>
      rw [Settings.load_eq, (Disk.keptOff_makeFolders hmade).read? hread, ← hread,
        ← Settings.load_eq, hload]
  | none =>
      have hdefault : settings = {} := by
        rw [Settings.load_eq, hread] at hload
        exact (Except.ok.inj hload).symm
      subst hdefault
      rw [parent_usualIndexFile_default] at hmade
      have hup : ".." ∉ root ++ [".polyindex"] := by
        rw [List.mem_append, not_or]
        exact ⟨hroot, by decide⟩
      rcases Disk.makeFoldersFrom_eq_or_empty hup hmade with rfl | ⟨folder, hfolder, hempty⟩
      · exact hload
      · -- the new folder has no file for the settings
        rw [List.nil_append] at hfolder
        have hmissing : made.locate (root ++ [".polyindex"] ++ ["config.toml"]) = _ :=
          Disk.locate_concat hfolder hempty (by decide) (by simp)
        have hnone : made.read? (Settings.way root) = none := by
          rw [way_settings]
          exact Disk.read?_of_locate_error hmissing
        rw [Settings.load_eq, hnone]
        rfl

/-- Nothing is read from a place in a folder where nothing stands. -/
theorem read?_of_vacant {d : Disk} {names folder : List String} {inner : List (String × Entry)}
    {name : String} (hfolder : d.locate names = .ok folder)
    (hinner : d.at? folder = some (.folder inner)) (hname : name ≠ "..")
    (hnone : d.at? (folder ++ [name]) = none) : d.read? (names ++ [name]) = none := by
  have hlookup : inner.lookup name = none := (Entry.at?_concat hinner name).symm.trans hnone
  have hmissing := Disk.locate_concat hfolder hinner hname (by simp [hlookup])
  rw [hlookup] at hmissing
  exact Disk.read?_of_locate_error hmissing

variable {d : Disk} {root : List String} {settings : Settings}

/-- Without an index there is none to read. -/
theorem Unindexed.read?_eq_none (h : Unindexed d root (usualIndexFile root settings)) :
    d.read? (usualIndexFile root settings).parts = none := by
  have hne : (usualIndexFile root settings).parts ≠ [] := by
    rw [parts_usualIndexFile]
    simp
  have hparts := Path.parts_eq hne
  rw [← hparts, name_usualIndexFile]
  cases hread : d.read? ((usualIndexFile root settings).parent.parts ++ ["index.json"]) with
  | none => rfl
  | some contents =>
      -- what is read stands in a folder, and nothing had to be made for it
      obtain ⟨stop, hstop, -⟩ := Disk.exists_way_of_read? hread
      obtain ⟨folder, inner, hfolder, hinner⟩ := Disk.exists_of_follow_append (by simp) hstop
      have hmade := Disk.makeFolders_of_leadsToFolder ⟨folder, inner, hfolder, hinner⟩
      obtain ⟨hnone, -, -⟩ := h d folder hmade hfolder
      rw [name_usualIndexFile] at hnone
      rw [read?_of_vacant hfolder hinner (by decide) hnone] at hread
      cases hread

/-- Making the folder of an index makes no index. -/
theorem Unindexed.makeFolders {file : Path} (h : Unindexed d root file) {made : Disk}
    (hmade : d.makeFolders file.parent.parts = .ok made) : Unindexed made root file := by
  intro made' folder hmade' hfolder
  rw [Disk.makeFolders_of_leadsToFolder (Disk.leadsToFolder_makeFolders hmade)] at hmade'
  cases hmade'
  exact h made folder hmade hfolder

/-- **A project without an index** has its places on the disk. -/
theorem Unindexed.housed (h : Unindexed d root (usualIndexFile root settings))
    (hroot : ".." ∉ root) (hload : Settings.load d root = .ok settings) (project : String) :
    d.Housed root settings (usualIndexFile root settings) project := by
  refine ⟨hload, fun made hmade => ⟨?_, ?_⟩⟩
  · obtain ⟨folder, inner, hfolder, hinner⟩ := Disk.leadsToFolder_makeFolders hmade
    obtain ⟨hnone, hdraft, hsettings⟩ := h made folder hmade hfolder
    have hunlinked : ∀ target,
        made.at? (folder ++ [(usualIndexFile root settings).name]) ≠ some (.link target) := by
      intro target hlink
      rw [hnone] at hlink
      cases hlink
    refine ⟨folder, ⟨⟨hfolder, ⟨inner, hinner⟩, hunlinked, hdraft⟩,
      load_settings_makeFolders hroot hload hmade, fun hway => absurd hway hsettings,
      fun hway => ?_⟩⟩
    obtain ⟨e, he⟩ := Disk.exists_at?_of_locate hway
    rw [hnone] at he
    cases he
  · rw [ProjectIndex.load_eq, ProjectIndex.load_eq, h.read?_eq_none,
      (h.makeFolders hmade).read?_eq_none]

/-- An index that was built is opened as it is stored, and the settings take its scope over. -/
theorem openStored_of_built {index : ProjectIndex}
    (hload : ProjectIndex.load d (usualIndexFile root settings) (rootPath root).toText = index)
    (hbuilt : index.indexed.isZero = false) (writer : Nat) :
    openStored d root settings none writer =
      { root, settings := { settings with scope := index.scope },
        indexFile := usualIndexFile root settings, index, writer } := by
  unfold openStored openWith
  dsimp only [Option.getD_none]
  rw [hload, hbuilt]
  rfl

/-- Without an index a project is opened with the scope of its settings. -/
theorem openStored_of_fresh
    (hload : ProjectIndex.load d (usualIndexFile root settings) (rootPath root).toText =
      .fresh (rootPath root).toText) (writer : Nat) :
    openStored d root settings none writer =
      { root, settings, indexFile := usualIndexFile root settings,
        index := { ProjectIndex.fresh (rootPath root).toText with scope := settings.scope },
        writer } := by
  unfold openStored openWith
  dsimp only [Option.getD_none]
  rw [hload]
  rfl

end Project

namespace Session

variable (read : FileReader)

/-! ### Sessions with reopening -/

/-- What may happen to a project between two looks at it: one of its operations, or that it is
opened anew in its place, with its own settings. -/
inductive Turn where
  | own (event : Event)
  | reopen (writer : Nat)

/-- The session with the project opened anew; without settings that can be read it goes on. -/
def reopen (s : Session) (writer : Nat) : Session :=
  match Project.ofDisk s.host.disk s.project.root none none writer with
  | .ok project => { s with project }
  | .error _ => s

/-- The session after a turn. -/
def turn (s : Session) : Turn → Session
  | .own event => s.after read event
  | .reopen writer => s.reopen writer

/-- The session after some turns. -/
def turns (s : Session) (turns : List Turn) : Session :=
  turns.foldl (turn read) s

/-- Whether every operation of some turns could save what it stored. -/
def savesAll (s : Session) : List Turn → Bool
  | [] => true
  | .own event :: rest => s.saved read event && (s.after read event).savesAll rest
  | .reopen writer :: rest => (s.reopen writer).savesAll rest

/-- An operation at a time that a clock can show, or a reopening. -/
def Turn.IsTimely : Turn → Prop
  | .own event => event.IsTimely
  | .reopen _ => True

/-- The name under which the index of the project is stored. -/
def title (s : Session) : String := (Project.rootPath s.project.root).toText

/-- The index on the disk. -/
def storedIndex (s : Session) : ProjectIndex :=
  ProjectIndex.load s.host.disk s.project.indexFile s.title

/-- **The disk mirrors the project.** The settings on the disk are those of the project, apart from
the scope, and the index on the disk is that of the project or none was stored yet. -/
structure Mirrored (s : Session) (root : List String) (given : Settings) : Prop where
  root : s.project.root = root
  kept : s.project.Kept
  indexFile : s.project.indexFile = Project.usualIndexFile s.project.root given
  settings : s.project.settings = { given with scope := s.project.index.scope }
  housed : s.host.disk.Housed s.project.root given s.project.indexFile s.title
  stored : (s.storedIndex = s.project.index ∧ s.project.index.indexed.isZero = false) ∨
    (s.storedIndex = .fresh s.title ∧
      s.project.index = { ProjectIndex.fresh s.title with scope := given.scope })

variable {read} {s : Session} {root : List String} {given : Settings}

/-- A project that the disk mirrors is found by whoever opens it. -/
theorem Mirrored.ofDisk (h : s.Mirrored root given) (writer : Nat) :
    Project.ofDisk s.host.disk s.project.root none none writer = .ok { s.project with writer } := by
  have hload : ProjectIndex.load s.host.disk (Project.usualIndexFile s.project.root given)
      (Project.rootPath s.project.root).toText = s.storedIndex := by
    rw [← h.indexFile]
    rfl
  rw [Project.ofDisk, h.housed.loads]
  refine congrArg Except.ok ?_
  dsimp only
  rcases h.stored with ⟨hsame, hbuilt⟩ | ⟨hfresh, hindex⟩
  · rw [Project.openStored_of_built (hload.trans hsame) hbuilt, Project.mk.injEq]
    exact ⟨rfl, h.settings.symm, h.indexFile.symm, rfl, rfl⟩
  · have hscope : s.project.settings = given := by
      rw [h.settings, hindex]
    rw [Project.openStored_of_fresh (hload.trans hfresh), Project.mk.injEq]
    exact ⟨rfl, hscope.symm, h.indexFile.symm, hindex.symm, rfl⟩

/-- Reopening changes nothing but the writer. -/
theorem Mirrored.reopen_eq (h : s.Mirrored root given) (writer : Nat) :
    s.reopen writer = { s with project := { s.project with writer } } := by
  rw [Session.reopen, h.ofDisk writer]

/-- Reopening leaves a disk that mirrors the project. -/
theorem Mirrored.reopen (h : s.Mirrored root given) (writer : Nat) :
    (s.reopen writer).Mirrored root given := by
  rw [h.reopen_eq writer]
  exact ⟨h.root, ⟨h.kept.version, h.kept.project, h.kept.scope, h.kept.indexed, h.kept.modified⟩,
    h.indexFile, h.settings, h.housed, h.stored⟩

/-- An operation that stores nothing leaves a disk that mirrors the project. -/
theorem Mirrored.of_idle (h : s.Mirrored root given) {s' : Session} (hidle : Idle s s') :
    s'.Mirrored root given := by
  obtain ⟨hproject, hdisk⟩ := hidle
  obtain ⟨hseen, hload⟩ : s.seen.Housed _ _ _ _ ∧ ProjectIndex.load s.seen _ _ = _ :=
    h.housed.seen
  have hstored : s'.storedIndex = s.storedIndex := by
    rw [storedIndex, title, hproject, hdisk]
    exact hload
  have htitle : s'.title = s.title := by rw [title, hproject, title]
  refine ⟨hproject ▸ h.root, hproject ▸ h.kept, hproject ▸ h.indexFile, hproject ▸ h.settings,
    ?_, ?_⟩
  · rw [hdisk, hproject, htitle]
    exact hseen
  · rw [hstored, hproject, htitle]
    exact h.stored

/-- What a mirrored project saves is found in the file of its index, in the same house. -/
theorem Mirrored.of_save (h : s.Mirrored root given) {index : ProjectIndex}
    (hsave : (index.save s.seen s.project.indexFile).2 = true) :
    (index.save s.seen s.project.indexFile).1.Housed s.project.root given s.project.indexFile
        s.title ∧
      (index.save s.seen s.project.indexFile).1.read? s.project.indexFile.parts =
        some (Utf8.bytes index.stored) := by
  have hseen : s.seen.Housed _ _ _ _ := h.housed.seen.1
  have hparts : s.project.indexFile.parts ≠ [] := by
    rw [h.indexFile, Project.parts_usualIndexFile]
    simp
  have hname : s.project.indexFile.name ≠ ".." := by
    rw [h.indexFile, Project.name_usualIndexFile]
    decide
  exact hseen.save hparts hname hsave

/-- An operation that stores a renewed state, and can save it, leaves a disk that mirrors it. -/
theorem Mirrored.of_stored (h : s.Mirrored root given) {s' : Session} {q : Project} {now : Number}
    (hrenewed : Renewed s.project q) (hkept : (q.persisted now).Kept) (hnow : now.isZero = false)
    (hsave : ((q.persisted now).index.save s.seen q.indexFile).2 = true)
    (hstored : Stored s s' q now) : s'.Mirrored root given := by
  obtain ⟨hproject, hdisk⟩ := hstored
  rw [hrenewed.indexFile] at hsave hdisk
  obtain ⟨hhoused, hfile⟩ := h.of_save hsave
  have htitle : s'.title = s.title := by
    rw [title, hproject, title, ← hrenewed.root]
    rfl
  have hindex : s'.storedIndex = (q.persisted now).index := by
    rw [storedIndex, ProjectIndex.load_eq, title, hproject, hdisk]
    change ProjectIndex.ofFile _ (Disk.read? _ q.indexFile.parts) = _
    rw [hrenewed.indexFile, hfile]
    exact hkept.ofStored
  refine ⟨?_, hproject ▸ hkept, ?_, ?_, ?_, ?_⟩
  · rw [hproject]
    exact hrenewed.root.trans h.root
  · rw [hproject]
    change q.indexFile = Project.usualIndexFile q.root given
    rw [hrenewed.indexFile, hrenewed.root, h.indexFile]
  · rw [hproject]
    change q.settings = { given with scope := q.index.scope }
    rw [hrenewed.settings, h.settings]
  · rw [hdisk, hproject, htitle]
    change Disk.Housed _ q.root given q.indexFile s.title
    rw [hrenewed.root, hrenewed.indexFile]
    exact hhoused
  · rw [hindex, hproject]
    exact Or.inl ⟨rfl, hnow⟩

/-- **One operation.** If it can save what it stores, the disk mirrors the project afterwards. -/
theorem Mirrored.after (hread : read.Dates) (h : s.Mirrored root given) {event : Event}
    (htimely : event.IsTimely) (hsaved : s.saved read event = true) :
    (s.after read event).Mirrored root given := by
  have hcases := s.after_cases read htimely.hasTime.isOwn
  cases hchange : s.change? read event with
  | none =>
      rw [hchange] at hcases
      exact h.of_idle hcases
  | some change =>
      obtain ⟨q, now⟩ := change
      rw [hchange] at hcases
      rw [saved, hchange] at hsaved
      obtain ⟨hq, hrenewed, hnow, hpositive⟩ :=
        kept_of_change? hread h.kept htimely.hasTime hchange
      exact h.of_stored hrenewed (kept_persisted hq hnow) hpositive hsaved hcases

/-- **A whole session** in which every save succeeds. -/
theorem Mirrored.turns (hread : read.Dates) (h : s.Mirrored root given) {list : List Turn}
    (htimely : ∀ turn ∈ list, turn.IsTimely) (hsaved : s.savesAll read list = true) :
    (s.turns read list).Mirrored root given := by
  induction list generalizing s with
  | nil => exact h
  | cons first rest ih =>
      obtain ⟨hfirst, hrest⟩ := List.forall_mem_cons.mp htimely
      cases first with
      | own event =>
          rw [savesAll, Bool.and_eq_true] at hsaved
          exact ih (h.after hread hfirst hsaved.1) hrest hsaved.2
      | reopen writer => exact ih (h.reopen writer) hrest hsaved

/-- **The start.** A project that was opened without an index is mirrored by its disk. -/
theorem mirrored_of_unindexed {writer : Nat} (hroot : ".." ∉ root)
    (hopen : Project.ofDisk s.host.disk root none none writer = .ok s.project)
    (hstart : Project.Unindexed s.host.disk root s.project.indexFile) :
    ∃ given, s.Mirrored root given := by
  obtain ⟨p, host⟩ := s
  dsimp only at hopen hstart
  rw [Project.ofDisk] at hopen
  cases hload : Settings.load host.disk root with
  | error f => rw [hload] at hopen; cases hopen
  | ok given =>
      rw [hload] at hopen
      have hp := Except.ok.inj hopen
      dsimp only at hp
      subst hp
      have hfile : (Project.openStored host.disk root given none writer).indexFile =
          Project.usualIndexFile root given := by
        unfold Project.openStored
        dsimp only
        split <;> rfl
      rw [hfile] at hstart
      have hfresh : ProjectIndex.load host.disk (Project.usualIndexFile root given)
          (Project.rootPath root).toText = .fresh (Project.rootPath root).toText := by
        rw [ProjectIndex.load_eq, hstart.read?_eq_none]
        rfl
      rw [Project.openStored_of_fresh hfresh]
      refine ⟨given, rfl, ⟨rfl, rfl, rfl, .real ⟨false, 0, 0⟩, fun id e he => ?_⟩, rfl, rfl,
        hstart.housed hroot hload _, Or.inr ⟨hfresh, rfl⟩⟩
      cases he

end Session

/-- What one project answers the other answers too. -/
structure Project.SameAnswers (p q : Project) : Prop where
  symbols : q.symbols = p.symbols
  definitions : q.definitions = p.definitions
  symbol? : q.symbol? = p.symbol?
  references : q.references = p.references
  symbolsIn : q.symbolsIn = p.symbolsIn
  search : q.search = p.search
  callGraph : q.callGraph = p.callGraph
  callers : q.callers = p.callers
  dependencyGraph : q.dependencyGraph = p.dependencyGraph
  statistics : q.statistics = p.statistics

namespace Session

variable {read : FileReader} {root : List String}

/-- **The disk always mirrors the project.** Whatever is done with a project that had no index, with
reopening in between: if every save succeeds, opening the project anew gives the project as it is,
its files in their order, its counts and its scope, which is also that of its settings. So it
answers every question in the same way. -/
theorem reopened_eq (hread : read.Dates) {start : Session} {first : Nat} (hroot : ".." ∉ root)
    (hopen : Project.ofDisk start.host.disk root none none first = .ok start.project)
    (hstart : Project.Unindexed start.host.disk root start.project.indexFile) {list : List Turn}
    (htimely : ∀ turn ∈ list, turn.IsTimely) (hsaved : start.savesAll read list = true)
    (writer : Nat) :
    let s := start.turns read list
    ∃ q, Project.ofDisk s.host.disk root none none writer = .ok q ∧
      q.index = s.project.index ∧ q.settings = s.project.settings ∧
      q.settings.scope = q.index.scope ∧ Project.SameAnswers s.project q := by
  intro s
  obtain ⟨given, hmirrored⟩ := mirrored_of_unindexed hroot hopen hstart
  have hs : s.Mirrored root given := hmirrored.turns hread htimely hsaved
  refine ⟨{ s.project with writer }, ?_, rfl, rfl, hs.kept.scope,
    ⟨rfl, rfl, rfl, rfl, rfl, rfl, rfl, rfl, rfl, rfl⟩⟩
  have hopened := hs.ofDisk writer
  rw [hs.root] at hopened
  exact hopened

section Runs

/-- A time that a clock can show. -/
def clock : Number := .ofDecimal ⟨false, 17, 8⟩

theorem clock_isTimely : clock.Representable ∧ clock.isZero = false :=
  ⟨.real _, by decide +kernel⟩

/-- The grammars play no part in when a file was changed. -/
theorem parseFile_dates (grammars : Grammars) : FileReader.Dates (parseFile grammars) := by
  intro path contents id e h
  unfold parseFile at h
  dsimp only at h
  split at h
  · cases h
  · split at h
    · cases h
    · obtain ⟨x, -, h⟩ := Attempt.exists_of_bind_eq_ok h
      cases x with
      | none => cases h
      | some extraction =>
          cases h
          exact .real ⟨false, 0, 0⟩

/-- The module is indexed, and the project is opened anew and given a name. -/
def namingTurns : List Turn :=
  [.own (.indexOne clock (.ofString "a.py")), .reopen 1,
    .own (.changeScope clock [.name "n", .list .languages (.texts ["python"])])]

/-- The project of one module with its own settings, which are the defaults. -/
def openedOwn : Session where
  project := .openStored (moduleDisk [120]) ["p"] {} none 0
  host := { disk := moduleDisk [120] }

theorem openedOwn_unindexed :
    Project.Unindexed openedOwn.host.disk ["p"] openedOwn.project.indexFile := by
  intro made folder hmade hfolder
  have hmade' : openedOwn.host.disk.makeFolders openedOwn.project.indexFile.parent.parts =
      .ok ⟨[("p", .folder [("a.py", .file [120]), (".polyindex", .folder [])])]⟩ := by rfl
  cases hmade'.symm.trans hmade
  have hfolder' : Disk.locate ⟨[("p", .folder [("a.py", .file [120]), (".polyindex", .folder [])])]⟩
      openedOwn.project.indexFile.parent.parts = .ok ["p", ".polyindex"] := by decide +kernel
  cases hfolder'.symm.trans hfolder
  exact ⟨rfl, (fun target h => by cases h), by decide +kernel⟩

theorem openedOwn_opened :
    Project.ofDisk openedOwn.host.disk ["p"] none none 0 = .ok openedOwn.project := by
  have hload : Settings.load (moduleDisk [120]) ["p"] = .ok {} := by decide +kernel
  change Project.ofDisk (moduleDisk [120]) ["p"] none none 0 = _
  rw [Project.ofDisk, hload]
  rfl

theorem namingTurns_timely : ∀ turn ∈ namingTurns, turn.IsTimely := by
  intro turn hturn
  simp only [namingTurns, List.mem_cons, List.not_mem_nil, or_false] at hturn
  rcases hturn with rfl | rfl | rfl
  · exact clock_isTimely
  · trivial
  · exact clock_isTimely

/-- The project that is opened anew in between goes on as it was. -/
theorem namingTurns_reopen :
    let indexed := openedOwn.after (parseFile bareGrammars) (.indexOne clock (.ofString "a.py"))
    indexed.reopen 1 = { indexed with project := { indexed.project with writer := 1 } } := by
  intro indexed
  obtain ⟨given, hstart⟩ := mirrored_of_unindexed (by decide) openedOwn_opened openedOwn_unindexed
  have hsaved : openedOwn.saved (parseFile bareGrammars) (.indexOne clock (.ofString "a.py")) =
      true := by decide +kernel
  have htimely : Event.IsTimely (.indexOne clock (.ofString "a.py")) := clock_isTimely
  exact (hstart.after (parseFile_dates bareGrammars) htimely hsaved).reopen_eq 1

/-- The project is found again with its module and its name. -/
theorem reopened_eq_naming :
    openedOwn.savesAll (parseFile bareGrammars) namingTurns = true ∧
      ∃ q, Project.ofDisk (openedOwn.turns (parseFile bareGrammars) namingTurns).host.disk ["p"]
          none none 7 = .ok q ∧
        q.index.files.keys = ["a.py"] ∧ q.index.scope.name = "n" ∧ q.settings.scope.name = "n" := by
  have hsaved : openedOwn.savesAll (parseFile bareGrammars) namingTurns = true := by
    rw [namingTurns, savesAll, savesAll, namingTurns_reopen]
    decide +kernel
  have hkeys : (openedOwn.turns (parseFile bareGrammars) namingTurns).project.index.files.keys =
      ["a.py"] ∧
      (openedOwn.turns (parseFile bareGrammars) namingTurns).project.index.scope.name = "n" := by
    have hturns : openedOwn.turns (parseFile bareGrammars) namingTurns =
        Session.after (parseFile bareGrammars) ((openedOwn.after (parseFile bareGrammars)
          (.indexOne clock (.ofString "a.py"))).reopen 1)
          (.changeScope clock [.name "n", .list .languages (.texts ["python"])]) := rfl
    rw [hturns, namingTurns_reopen]
    decide +kernel
  obtain ⟨q, hq, hindex, -, hscope, -⟩ := reopened_eq (parseFile_dates bareGrammars) (by decide)
    openedOwn_opened openedOwn_unindexed namingTurns_timely hsaved 7
  have hname : q.index.scope.name = "n" := by
    rw [hindex]
    exact hkeys.2
  refine ⟨hsaved, q, hq, ?_, hname, hscope ▸ hname⟩
  rw [hindex]
  exact hkeys.1

end Runs

section Links

/-- What a project without an index comes to when one file of it is indexed: whether the index was
saved, the files of the project, and the files of the project opened anew. -/
def indexedThenOpened (d : Disk) (path : Path) : Option (Bool × List String × List String) := do
  let p ← (Project.ofDisk d ["p"] none none 0).toOption
  guard (d.read? p.indexFile.parts).isNone
  let turns : List Turn := [.own (.indexOne clock path)]
  let start : Session := ⟨p, { disk := d }⟩
  let s := start.turns (parseFile bareGrammars) turns
  let q ← (Project.ofDisk s.host.disk ["p"] none none 1).toOption
  return (start.savesAll (parseFile bareGrammars) turns, s.project.index.files.keys,
    q.index.files.keys)

/-- The draft of the index is a link to the index. -/
def linkedDraft : Disk :=
  ⟨[("p", .folder [("a.py", .file [120]),
    (".polyindex", .folder [("index.json.tmp", .link (.ofString "index.json"))])])]⟩

/-- The settings are read from the draft of the index. -/
def linkedSettings : Disk :=
  ⟨[("p", .folder [("a.py", .file [120]),
    ("x", .folder [("index.json.tmp", .file (Utf8.bytes "[indexing]\nindex_dir = \"x\""))]),
    (".polyindex", .folder [("config.toml", .link (.ofString "../x/index.json.tmp"))])])]⟩

/-- With a link in the place of the draft, what was saved is lost: the link is put in the place of
the index and leads to itself. And settings that are read from the draft are gone after a save, so
that the project is looked for elsewhere. -/
theorem reopened_differs_linked :
    indexedThenOpened linkedDraft (.ofString "a.py") = some (true, ["a.py"], []) ∧
      indexedThenOpened linkedSettings (.ofString "a.py") = some (true, ["a.py"], []) :=
  ⟨by decide +kernel, by decide +kernel⟩

end Links

end Session

end Concordance
