import Concordance.Parse.File
import Concordance.Proofs.Project.Run
import Concordance.Proofs.Project.Session
import Concordance.Proofs.Scan.Found

/-!
# Incremental runs

An incremental run keeps a stored entry if its fingerprint is that of the file on the disk. This is
safe because of where stored entries come from: in every state of a session each entry was read from
some contents under a path that ends like its id (`Sourced`). If contents that occur in the session
are told apart by their fingerprints, an entry that is kept is the one that would be read again.

The main statement is `Session.files_incremental_eq_full`: from any state of a session an incremental
run and a full run that are not cancelled end with the same files, their order included.
-/

namespace Concordance

/-- A reader of files that goes by the name at the end of a path, not by the path, and that notes
the fingerprint of what it read. -/
structure FileReader.Faithful (read : FileReader) : Prop where
  byName : ∀ {p q : Path} {id : String} (contents : Bytes), id ≠ "" → p.name = q.name →
    read p contents id = read q contents id
  digest : ∀ {p : Path} {contents : Bytes} {id : String} {e : FileEntry},
    read p contents id = .ok (some e) → e.digest = Digest.fingerprint contents

/-- Files are read faithfully, whatever the grammars at hand. -/
theorem parseFile_faithful (grammars : Grammars) :
    FileReader.Faithful (parseFile grammars) where
  byName {p q id} contents hid hname := by
    have hlang : Language.ofPath p = Language.ofPath q := by
      rw [Language.ofPath, Language.ofPath, Path.suffix, Path.suffix, hname]
    have hempty : id.isEmpty = false := by simpa using hid
    unfold parseFile
    rw [hlang]
    simp only [hempty, Bool.false_eq_true, if_false]
  digest {p contents id e} h := by
    unfold parseFile at h
    dsimp only at h
    split at h
    · cases h
    · split at h
      · cases h
      · next spec _ _ =>
        cases hparsed : parseContents grammars (Language.ofPath p) spec contents
            (if id.isEmpty then p.toText else id) with
        | error f => rw [hparsed] at h; cases h
        | ok extraction =>
            rw [hparsed] at h
            cases extraction with
            | none => cases h
            | some x => cases h; rfl

namespace Project

/-- The scanner of a project starts at its root. -/
theorem root_of_scanner {p : Project} {d : Disk} {s : Scanner} (h : p.scanner d = .ok s) :
    s.root = p.root := by
  unfold scanner at h
  dsimp only at h
  split at h
  · cases hrules : IgnoreRules.load d p.root with
    | error f => rw [hrules] at h; cases h
    | ok rules => rw [hrules] at h; cases h; rfl
  · cases h; rfl

/-- It passes by the folders that are always excluded, and by that of the index. -/
theorem excluded_of_scanner {p : Project} {d : Disk} {s : Scanner} (h : p.scanner d = .ok s) :
    s.excluded = Settings.excludedFolders ++ [p.settings.indexing.folder] := by
  unfold scanner at h
  dsimp only at h
  split at h
  · obtain ⟨rules, -, h⟩ := Attempt.exists_of_bind_eq_ok h
    cases h
    rfl
  · cases h
    rfl

/-- What a scan finds is a file that can be read, under its id. -/
theorem read?_of_mem_scan {s : Scanner} {d : Disk} {f : Scan.Found} (h : f ∈ s.scan d) :
    d.read? (s.root ++ f.way) = some f.contents ∧ s.id? d (s.root ++ f.way) = some f.id := by
  have haccepted := Scan.accepted_of_mem h
  exact ⟨haccepted.read, haccepted.id⟩

/-- **Ids on a plain disk.** The id of a file is not empty, the path on which the file was met ends
like its id, and the id leads to the file. -/
theorem name_of_id? {d : Disk} (hd : d.Plain) {s : Scanner} (path : Path) {contents : Bytes}
    {id : String} (hread : d.read? path.parts = some contents)
    (hid : s.id? d path.parts = some id) :
    id ≠ "" ∧ path.name = ((rootPath s.root).join (.ofString id)).name ∧
      d.at? ((rootPath s.root).join (.ofString id)).parts = some (.file contents) := by
  obtain ⟨way, hway, hfile⟩ := Disk.exists_way_of_read? hread
  have hlast := hd.getLast?_of_file hway hfile
  obtain ⟨parts, hparts, rfl⟩ := (Scanner.id?_eq_some_iff hway).mp hid
  have hnames : ∀ n ∈ parts, Path.IsName n := fun n hn =>
    hd.names hfile n (by rw [hparts]; exact List.mem_append_right _ hn)
  have hjoin : (rootPath s.root).join (.ofString (Path.toText ⟨"", parts⟩)) = ⟨"/", way⟩ := by
    rw [Path.ofString_toText hnames, hparts]
    rfl
  refine ⟨Path.toText_ne_empty fun n hn => (hnames n hn).1, ?_, ?_⟩
  · rw [hjoin, Path.name, Path.name, hlast]
  · rw [hjoin]
    exact hfile

/-- Contents that are told apart by their fingerprints. -/
def ToldApart (known : List Bytes) : Prop :=
  ∀ b ∈ known, ∀ c ∈ known, Digest.fingerprint b = Digest.fingerprint c → b = c

instance (known : List Bytes) : Decidable (ToldApart known) :=
  inferInstanceAs (Decidable (∀ b ∈ known, ∀ c ∈ known, _ → _))

variable (read : FileReader)

/-- Every entry was read from contents among `known` under a path that ends like its id. -/
def Sourced (known : List Bytes) (root : List String) (files : Roster String FileEntry) : Prop :=
  ∀ id e, files.get? id = some e → ∃ path contents, contents ∈ known ∧ id ≠ "" ∧
    path.name = ((rootPath root).join (.ofString id)).name ∧
    read path contents id = .ok (some e)

variable {read}

/-- Removing a file leaves the others with their sources. -/
theorem Sourced.erase {known : List Bytes} {root : List String} {files : Roster String FileEntry}
    (h : Sourced read known root files) (id : String) :
    Sourced read known root (files.erase id) := by
  intro id' e hget
  rw [Roster.get?_erase] at hget
  split at hget
  · cases hget
  · exact h id' e hget

/-- A run over files that were found on a plain disk leaves sourced entries. -/
theorem Sourced.runOver {known : List Bytes} {p : Project}
    (h : Sourced read known p.root p.index.files) {d : Disk} (hd : d.Plain) {s : Scanner}
    (hs : p.scanner d = .ok s) (hknown : ∀ f ∈ s.scan d, f.contents ∈ known)
    (incremental : Bool) (stopAt : Option Nat) :
    Sourced read known p.root (p.runOver read incremental stopAt (s.scan d)).files := by
  intro id e hget
  obtain ⟨works, hfirst, hrun⟩ := get?_of_runOver read incremental stopAt p (s.scan d)
  rcases Work.get?_applyAll read incremental (hrun id e hget) with hbefore | ⟨w, hw, rfl, hread⟩
  · exact h id e hbefore
  · obtain ⟨f, hf, rfl⟩ := List.mem_map.mp (hfirst.subset hw)
    obtain ⟨hcontents, hid⟩ := read?_of_mem_scan hf
    rw [root_of_scanner hs] at hcontents hid
    obtain ⟨hne, hname, -⟩ := name_of_id? hd ⟨"/", p.root ++ f.way⟩ hcontents hid
    rw [root_of_scanner hs] at hname
    exact ⟨_, f.contents, hknown f hf, hne, hname, hread⟩

/-- The entry of a single file is read from the contents at its path, under the id of the path. -/
theorem read_of_entryFor? {p : Project} {d : Disk} {path : Path} {id : String} {e : FileEntry}
    (h : p.entryFor? read d path = some (id, e)) :
    ∃ contents s, d.read? (p.absolute path).parts = some contents ∧ p.scanner d = .ok s ∧
      s.id? d (p.absolute path).parts = some id ∧
      read (p.absolute path) contents id = .ok (some e) := by
  unfold entryFor? at h
  split at h
  · next id' contents hid hcontents =>
    split at h
    · next e' hread =>
      cases h
      unfold idOf at hid
      split at hid
      · cases hid
      · next s hs =>
        split at hid
        · next id' hid' => cases hid; exact ⟨contents, s, hcontents, hs, hid', hread⟩
        · cases hid
    · cases h
  · cases h

/-- A single file that was indexed leaves a sourced entry. -/
theorem Sourced.put {known : List Bytes} {p : Project}
    (h : Sourced read known p.root p.index.files) {d : Disk} (hd : d.Plain) {path : Path}
    (hknown : ∀ contents, d.read? (p.absolute path).parts = some contents → contents ∈ known)
    {id : String} {e : FileEntry} (hentry : p.entryFor? read d path = some (id, e)) :
    Sourced read known p.root (p.index.files.put id e) := by
  intro id' e' hget
  rw [Roster.get?_put] at hget
  split at hget
  · next hid =>
    subst hid
    cases hget
    obtain ⟨contents, s, hcontents, hs, hid, hread⟩ := read_of_entryFor? hentry
    obtain ⟨hne, hname, -⟩ := name_of_id? hd _ hcontents hid
    rw [root_of_scanner hs] at hname
    exact ⟨_, contents, hknown contents hcontents, hne, hname, hread⟩
  · exact h id' e' hget

/-- **What is kept is what would be read.** A sourced entry with the fingerprint of a file that is
found is what reading the file gives. -/
theorem Sourced.read_of_stored {known : List Bytes} {p : Project} (hread : read.Faithful)
    (h : Sourced read known p.root p.index.files) (htold : ToldApart known)
    {d : Disk} (hd : d.Plain) {s : Scanner} (hs : p.scanner d = .ok s)
    (hknown : ∀ f ∈ s.scan d, f.contents ∈ known) {w : Work} (hw : w ∈ p.works (s.scan d))
    (hstored : w.stored = some (Digest.fingerprint w.contents)) :
    ∃ e, read w.path w.contents w.id = .ok (some e) ∧ p.index.files.get? w.id = some e := by
  obtain ⟨f, hf, rfl⟩ := List.mem_map.mp hw
  obtain ⟨e, hget, hdigest⟩ := Option.map_eq_some_iff.mp hstored
  obtain ⟨path, contents, hmem, hne, hname, hpath⟩ := h f.id e hget
  obtain ⟨hcontents, hid⟩ := read?_of_mem_scan hf
  rw [root_of_scanner hs] at hcontents hid
  obtain ⟨-, hfound, -⟩ := name_of_id? hd ⟨"/", p.root ++ f.way⟩ hcontents hid
  rw [root_of_scanner hs] at hfound
  have hsame : contents = f.contents :=
    htold contents hmem f.contents (hknown f hf) ((hread.digest hpath).symm.trans hdigest)
  refine ⟨e, ?_, hget⟩
  rw [← hpath, hsame]
  exact hread.byName f.contents hne (hfound.trans hname.symm)

/-- Two works with one id look at one file. -/
theorem works_same_id {p : Project} {d : Disk} (hd : d.Plain) {s : Scanner}
    {w v : Work} (hw : w ∈ p.works (s.scan d)) (hv : v ∈ p.works (s.scan d)) (hid : w.id = v.id) :
    w.contents = v.contents ∧ w.stored = v.stored := by
  obtain ⟨f, hf, rfl⟩ := List.mem_map.mp hw
  obtain ⟨g, hg, rfl⟩ := List.mem_map.mp hv
  have hfile : ∀ f ∈ s.scan d,
      d.at? ((rootPath s.root).join (.ofString f.id)).parts = some (.file f.contents) := by
    intro f hf
    obtain ⟨hcontents, hid⟩ := read?_of_mem_scan hf
    exact (name_of_id? hd ⟨"/", s.root ++ f.way⟩ hcontents hid).2.2
  change f.id = g.id at hid
  have heq := (hfile f hf).symm.trans (hid ▸ hfile g hg)
  refine ⟨Entry.file.inj (Option.some.inj heq), ?_⟩
  change (p.index.files.get? f.id).map _ = (p.index.files.get? g.id).map _
  rw [hid]

end Project

namespace Session

variable (read : FileReader)

/-- The contents of files that an event reads. -/
def contentsRead (s : Session) : Event → List Bytes
  | .indexAll _ _ _ =>
    match s.project.scanner (s.project.seen s.host) with
    | .ok scanner => (scanner.scan (s.project.seen s.host)).map Scan.Found.contents
    | .error _ => []
  | .indexOne _ path =>
    ((s.project.seen s.host).read? (s.project.absolute path).parts).toList
  | _ => []

/-- The contents of files that occur in a session. -/
def occurring (s : Session) : List Event → List Bytes
  | [] => []
  | event :: events => s.contentsRead event ++ (s.after read event).occurring events

/-- The contents that occur in some events and then in others. -/
theorem occurring_append (s : Session) (events later : List Event) :
    s.occurring read (events ++ later) =
      s.occurring read events ++ (s.run read events).occurring read later := by
  induction events generalizing s with
  | nil => rfl
  | cons event events ih =>
      rw [List.cons_append, occurring, occurring, ih, List.append_assoc]
      rfl

/-- The entries of the session's index were read from contents among `known`. -/
def Sourced (known : List Bytes) (s : Session) : Prop :=
  Project.Sourced read known s.project.root s.project.index.files

variable {read}

/-- A run reads the contents of every file that it finds. -/
theorem mem_contentsRead_indexAll {s : Session} {scanner : Scanner}
    (hscanner : s.project.scanner (s.project.seen s.host) = .ok scanner) {f : Scan.Found}
    (hf : f ∈ scanner.scan (s.project.seen s.host)) {now : Number} {incremental : Bool}
    {stopAt : Option Nat} : f.contents ∈ s.contentsRead (.indexAll now incremental stopAt) := by
  rw [contentsRead, hscanner]
  exact List.mem_map_of_mem hf

/-- An operation under the lock keeps the entries sourced if what it does on a plain disk does. -/
theorem Sourced.guarded {α : Type} {known : List Bytes} {s : Session} (hs : s.Usual)
    (h : s.Sourced read known) {body : Disk → Project × Disk × Except Project.Fault α}
    (hroot : (body (s.project.seen s.host)).1.root = s.project.root)
    (hbody : (s.project.seen s.host).Plain →
      Project.Sourced read known s.project.root (body (s.project.seen s.host)).1.index.files) :
    (ofReply (s.project.guarded s.host body)).Sourced read known := by
  have hseen := hs.placed.plain_seen hs.plain
  unfold Sourced ofReply
  cases hlock : (s.host.acquire s.project.writer (lockFile s.project.indexFile)).2 with
  | error f =>
      rw [(Project.guarded_of_refused _ hlock).1]
      exact h
  | ok _ =>
      rw [(Project.guarded_of_granted _ hlock).1, hroot]
      exact hbody hseen

/-- **One event** keeps the entries sourced, if the contents that it reads are known. -/
theorem Sourced.after {known : List Bytes} {s : Session} (hs : s.Usual)
    (h : s.Sourced read known) {event : Event} (hknown : s.contentsRead event ⊆ known) :
    (s.after read event).Sourced read known := by
  cases event with
  | indexAll now incremental stopAt =>
      refine h.guarded hs ?_ fun hd => ?_
      · split <;> rfl
      · split
        · exact h
        · next scanner hscanner =>
          exact Project.Sourced.runOver h hd hscanner
            (fun f hf => hknown (mem_contentsRead_indexAll hscanner hf)) incremental stopAt
  | indexOne now path =>
      refine h.guarded hs ?_ fun hd => ?_
      · split <;> rfl
      · split
        · exact h
        · next id e hentry =>
          exact Project.Sourced.put h hd (fun b hb => hknown (by simp [contentsRead, hb])) hentry
  | removeFile now path =>
      refine h.guarded hs ?_ fun hd => ?_
      · split
        · rfl
        · split <;> rfl
      · split
        · exact h
        · split
          · exact Project.Sourced.erase h _
          · exact h
  | changeScope now changes =>
      refine h.guarded hs ?_ fun hd => ?_
      · split <;> rfl
      · split <;> exact h
  | clear now =>
      refine h.guarded hs rfl fun _ => ?_
      intro id e hget
      cases hget
  | outside host => exact h

/-- **A whole session** leaves sourced entries. -/
theorem Sourced.run {known : List Bytes} {s : Session} (hs : s.Usual)
    (h : s.Sourced read known) {events : List Event} (hevents : ∀ event ∈ events, event.IsPlain)
    (hknown : s.occurring read events ⊆ known) : (s.run read events).Sourced read known := by
  induction events generalizing s with
  | nil => exact h
  | cons event events ih =>
      obtain ⟨hevent, hevents⟩ := List.forall_mem_cons.mp hevents
      obtain ⟨hfirst, hrest⟩ := List.append_subset.mp hknown
      exact ih (hs.after read hevent).1 (h.after hs hfirst) hevents hrest

/-- A run that came to its end without being cancelled, or that was refused. -/
def NotCancelled (reply : Project.Reply (Project.Report × List Project.Note)) : Prop :=
  ∀ answer, reply.answer = .ok answer → answer.1.cancelled = false

/-- A run that nobody stops is not cancelled. -/
theorem notCancelled_indexAll (s : Session) (now : Number) (incremental : Bool) :
    NotCancelled (s.project.indexAll s.host read now incremental none) := by
  intro answer hanswer
  cases hlock : (s.host.acquire s.project.writer (lockFile s.project.indexFile)).2 with
  | error f =>
      rw [Project.indexAll, (Project.guarded_of_refused _ hlock).2.2] at hanswer
      cases hanswer
  | ok _ =>
      rw [Project.indexAll, (Project.guarded_of_granted _ hlock).2.2] at hanswer
      split at hanswer
      · cases hanswer
      · cases hanswer
        exact Project.not_cancelled_runOver read incremental _ _

/-- The files after a run under a lock that was granted, with a scanner that could be made. -/
theorem files_indexAll_of_scanner {s : Session} {now : Number} {incremental : Bool}
    {stopAt : Option Nat}
    (hlock : (s.host.acquire s.project.writer (lockFile s.project.indexFile)).2 = .ok ())
    {scanner : Scanner} (hscanner : s.project.scanner (s.project.seen s.host) = .ok scanner)
    (hdone : NotCancelled (s.project.indexAll s.host read now incremental stopAt)) :
    let works := s.project.works (scanner.scan (s.project.seen s.host))
    (s.after read (.indexAll now incremental stopAt)).project.index.files =
      (Project.Work.applyAll read incremental s.project.index.files works).filterKeys
        (works.map Project.Work.id).contains := by
  have hanswer : (s.project.indexAll s.host read now incremental stopAt).answer =
      .ok ((s.project.runOver read incremental stopAt
        (scanner.scan (s.project.seen s.host))).report, (s.project.runOver read incremental stopAt
        (scanner.scan (s.project.seen s.host))).notes) := by
    rw [Project.indexAll, (Project.guarded_of_granted _ hlock).2.2, hscanner]
  have hproject : (s.after read (.indexAll now incremental stopAt)).project.index.files =
      (s.project.runOver read incremental stopAt
        (scanner.scan (s.project.seen s.host))).files := by
    rw [after, ofReply, Project.indexAll, (Project.guarded_of_granted _ hlock).1, hscanner]
    rfl
  rw [hproject]
  exact Project.runOver_files_of_not_cancelled read incremental stopAt (hdone _ hanswer)

section Edited

/-- Grammars under which every tree is a bare root. -/
def bareGrammars : Grammars where
  isMissing _ := false
  tree? _ source := some (.node ⟨"module", true, 0, source.length, none⟩ [])

/-- A disk with a project of one module. -/
def moduleDisk (contents : Bytes) : Disk := ⟨[("p", .folder [("a.py", .file contents)])]⟩

/-- A project of one module, just opened. -/
def opened : Session where
  project := .openWith (moduleDisk [120]) ["p"] {} none 0
  host := { disk := moduleDisk [120] }

/-- A run that is stopped at once, the module indexed alone, and an edit of it. -/
def edits : List Event :=
  [.indexAll .zero true (some 0), .indexOne .zero (.ofString "a.py"),
    .outside { disk := moduleDisk [121] }]

/-- The fingerprint under which the module is stored. -/
def storedDigest? (s : Session) : Option String :=
  (s.project.index.files.get? "a.py").map FileEntry.digest

theorem opened_usual : opened.Usual where
  placed := ⟨by decide, rfl, rfl⟩
  plain := Disk.plain_of_allPlain (by decide)

theorem edits_isPlain : ∀ event ∈ edits, event.IsPlain := by
  intro event hevent
  simp only [edits, List.mem_cons, List.not_mem_nil, or_false] at hevent
  rcases hevent with rfl | rfl | rfl
  · trivial
  · trivial
  · exact Disk.plain_of_allPlain (by decide)

end Edited

end Session

end Concordance
