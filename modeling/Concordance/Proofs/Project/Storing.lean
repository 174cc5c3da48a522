import Concordance.Proofs.Json.Number
import Concordance.Proofs.Project.Run
import Concordance.Proofs.Project.Session
import Concordance.Proofs.Store

/-!
# What operations store

An operation of a project looks at the disk and then either leaves everything as it is or stores one
new state of the project (`Session.Event.change?`). So there are two things that an event can do to
a session (`Session.after_cases`), and what is to be shown of all operations is shown of what they
store.

The states that are stored can be loaded again: they are of the current version, bear the name of
the project, and hold only times that a clock can show (`Project.Kept`). Their settings take over
the scope of the index.
-/

namespace Concordance

/-- Every entry that is read has a time that a clock can show. -/
def FileReader.Dates (read : FileReader) : Prop :=
  ∀ path contents id e, read path contents id = .ok (some e) → e.modified.Representable

namespace Project

/-- The project as it is stored at a time. -/
def persisted (p : Project) (now : Number) : Project :=
  { p with index := { p.index.counted with indexed := now } }

/-- A project whose index can be stored and loaded again: of the current version, under the name of
the project, with its scope in the settings and no times but those that a clock can show. -/
structure Kept (p : Project) : Prop where
  version : p.index.version = ProjectIndex.currentVersion
  project : p.index.project = (rootPath p.root).toText
  scope : p.settings.scope = p.index.scope
  indexed : p.index.indexed.Representable
  modified : ∀ id e, p.index.files.get? id = some e → e.modified.Representable

/-- What is kept in this way is read as it was stored. -/
theorem Kept.ofStored? {p : Project} (hp : p.Kept) :
    ProjectIndex.ofStored? (Utf8.bytes p.index.stored) = some p.index := by
  have hmodified : ∀ e ∈ p.index.files.values, e.modified.Representable := by
    intro e he
    obtain ⟨⟨id, e⟩, hmem, rfl⟩ := List.mem_map.mp he
    exact hp.modified id e (Roster.get?_eq_some_iff.mpr hmem)
  have hstorable := ProjectIndex.storable hp.indexed.readsBack fun e he =>
    (hmodified e he).readsBack
  exact ProjectIndex.ofStored?_stored hp.version hstorable

/-- And it is loaded under the name of the project. -/
theorem Kept.ofStored {p : Project} (hp : p.Kept) :
    ProjectIndex.ofStored (rootPath p.root).toText (Utf8.bytes p.index.stored) = p.index := by
  rw [ProjectIndex.ofStored, hp.ofStored?, ← hp.project]

/-- The version of an index is the one that its JSON form gives. -/
theorem version_of_ofJson {j : Json} {index : ProjectIndex} {v : Int}
    (hfield : j.field? "version" = some (.number (.integer v)))
    (h : ProjectIndex.ofJson j = .ok index) : index.version = v := by
  have hversion : j.getD "version" Json.asInteger 0 = .ok v := by
    cases j with
    | object fields =>
        have hlookup : fields.lookup "version" = some (.number (.integer v)) := hfield
        rw [Json.getD, Json.lookup?, hlookup]
        rfl
    | _ => cases hfield
  unfold ProjectIndex.ofJson at h
  obtain ⟨project, -, h⟩ := Attempt.exists_of_bind_eq_ok h
  rw [hversion, Attempt.ok_bind] at h
  obtain ⟨indexed, -, h⟩ := Attempt.exists_of_bind_eq_ok h
  obtain ⟨scope, -, h⟩ := Attempt.exists_of_bind_eq_ok h
  obtain ⟨statistics, -, h⟩ := Attempt.exists_of_bind_eq_ok h
  obtain ⟨files, -, h⟩ := Attempt.exists_of_bind_eq_ok h
  cases h
  rfl

/-- An index that is loaded is of the current version and bears the name of the project. -/
theorem version_load (d : Disk) (file : Path) (project : String) :
    (ProjectIndex.load d file project).version = ProjectIndex.currentVersion ∧
      (ProjectIndex.load d file project).project = project := by
  unfold ProjectIndex.load ProjectIndex.ofStored
  split
  · split
    · next index hindex =>
      refine ⟨?_, rfl⟩
      unfold ProjectIndex.ofStored? at hindex
      obtain ⟨text, -, hindex⟩ := Option.bind_eq_some_iff.mp hindex
      obtain ⟨j, -, hindex⟩ := Option.bind_eq_some_iff.mp hindex
      split at hindex
      · next v hfield =>
        split at hindex
        · next hcurrent =>
          cases hread : ProjectIndex.ofJson j with
          | error f => rw [hread] at hindex; cases hindex
          | ok read =>
              rw [hread] at hindex
              cases hindex
              exact (version_of_ofJson hfield hread).trans (by simpa using hcurrent)
        · cases hindex
      · cases hindex
    · exact ⟨rfl, rfl⟩
  · exact ⟨rfl, rfl⟩

/-- **What is opened**: the index on the disk, with the scope that the settings have then. -/
theorem index_of_ofDisk {d : Disk} {root : List String} {given : Option Settings}
    {file : Option Path} {writer : Nat} {p : Project}
    (hopen : ofDisk d root given file writer = .ok p) :
    p.root = root ∧ p.index = { ProjectIndex.load d p.indexFile (rootPath root).toText with
      scope := p.settings.scope } := by
  cases given with
  | some settings =>
      cases hopen
      exact ⟨rfl, rfl⟩
  | none =>
      rw [ofDisk] at hopen
      cases hsettings : Settings.load d root with
      | error f => rw [hsettings] at hopen; cases hopen
      | ok settings =>
          rw [hsettings] at hopen
          have hp := Except.ok.inj hopen
          dsimp only [openStored] at hp
          split at hp
          · subst hp
            exact ⟨rfl, rfl⟩
          · subst hp
            exact ⟨rfl, rfl⟩

/-- Every project that was opened can be stored and loaded again, if a clock can show its times. -/
theorem kept_of_ofDisk {d : Disk} {root : List String} {given : Option Settings}
    {file : Option Path} {writer : Nat} {p : Project}
    (hopen : ofDisk d root given file writer = .ok p) (hindexed : p.index.indexed.Representable)
    (hmodified : ∀ id e, p.index.files.get? id = some e → e.modified.Representable) : p.Kept := by
  obtain ⟨hroot, hindex⟩ := index_of_ofDisk hopen
  obtain ⟨hversion, hproject⟩ := version_load d p.indexFile (rootPath root).toText
  refine ⟨?_, ?_, ?_, hindexed, hmodified⟩
  · rw [hindex]
    exact hversion
  · rw [hindex, hroot]
    exact hproject
  · rw [hindex]

/-- The entry that is read for a file is dated. -/
theorem modified_of_entryFor? (p : Project) {read : FileReader} (hread : read.Dates) {d : Disk}
    {path : Path} {id : String} {e : FileEntry} (h : p.entryFor? read d path = some (id, e)) :
    e.modified.Representable := by
  unfold entryFor? at h
  split at h
  · split at h
    · next hentry =>
      cases h
      exact hread _ _ _ _ hentry
    · cases h
  · cases h

end Project

namespace Session

variable (read : FileReader)

/-- The state of the project that an operation stores on a disk, and when; nothing if it stores
none. -/
def Event.change? (p : Project) (d : Disk) : Event → Option (Project × Number)
  | .indexAll now incremental stopAt =>
    match p.scanner d with
    | .error _ => none
    | .ok s => some (p.withFiles (p.runOver read incremental stopAt (s.scan d)).files, now)
  | .indexOne now path =>
    match p.entryFor? read d path with
    | none => none
    | some (id, e) => some (p.withFiles (p.index.files.put id e), now)
  | .removeFile now path =>
    match p.idOf d path with
    | .error _ => none
    | .ok id =>
      if p.index.files.contains id then some (p.withFiles (p.index.files.erase id), now) else none
  | .changeScope now changes =>
    match p.index.scope.setAll changes, p.settings.scope.setAll changes with
    | .ok scope, .ok given =>
      some ({ p with
        index := { p.index with scope }
        settings := { p.settings with scope := given } }, now)
    | _, _ => none
  | .clear now =>
    some ({ p with
      index := { ProjectIndex.fresh (Project.rootPath p.root).toText with
        scope := p.index.scope } }, now)
  | .outside _ => none

/-- An operation of the project itself, at a time that a clock can show. -/
def Event.IsTimely : Event → Prop
  | .indexAll now _ _ | .indexOne now _ | .removeFile now _ | .changeScope now _ | .clear now =>
    now.Representable ∧ now.isZero = false
  | .outside _ => False

/-- An operation of the project itself, at a time of which `P` holds. -/
def Event.HasTime (P : Number → Prop) : Event → Prop
  | .indexAll now _ _ | .indexOne now _ | .removeFile now _ | .changeScope now _ | .clear now =>
    P now
  | .outside _ => False

/-- A timely operation has a time that a clock can show. -/
theorem Event.IsTimely.hasTime {event : Event} (h : event.IsTimely) :
    event.HasTime fun now => now.Representable ∧ now.isZero = false := by
  cases event <;> exact h

/-- An operation of the project itself. -/
def Event.IsOwn : Event → Prop
  | .outside _ => False
  | _ => True

/-- Only operations of the project have a time. -/
theorem Event.HasTime.isOwn {P : Number → Prop} {event : Event} (h : event.HasTime P) :
    event.IsOwn := by
  cases event with
  | outside host => exact h
  | _ => trivial

/-- Whether the project of a session gets the lock of its index. -/
def isGranted (s : Session) : Bool :=
  (s.host.acquire s.project.writer (lockFile s.project.indexFile)).2.toBool

/-- The disk that an operation sees. -/
def seen (s : Session) : Disk := s.project.seen s.host

/-- What an event stores: something only if the project gets the lock. -/
def change? (s : Session) (event : Event) : Option (Project × Number) :=
  if s.isGranted then event.change? read s.project s.seen else none

/-- Whether an event could save what it stores. -/
def saved (s : Session) (event : Event) : Bool :=
  match s.change? read event with
  | none => true
  | some (q, now) => ((q.persisted now).index.save s.seen q.indexFile).2

/-- The event stored nothing. -/
structure Idle (s s' : Session) : Prop where
  project : s'.project = s.project
  disk : s'.host.disk = s.seen

/-- The event stored a state of the project. -/
structure Stored (s s' : Session) (q : Project) (now : Number) : Prop where
  project : s'.project = q.persisted now
  disk : s'.host.disk = ((q.persisted now).index.save s.seen q.indexFile).1

/-- What is done under the lock, if it either leaves all as it is or stores a state. -/
theorem guarded_cases {α : Type} (s : Session)
    {body : Disk → Project × Disk × Except Project.Fault α} {change? : Option (Project × Number)}
    (hbody : match change? with
      | none => (body s.seen).1 = s.project ∧ (body s.seen).2.1 = s.seen
      | some (q, now) => (body s.seen).1 = (q.persist now s.seen).1 ∧
          (body s.seen).2.1 = (q.persist now s.seen).2) :
    match if s.isGranted then change? else none with
      | none => Idle s (ofReply (s.project.guarded s.host body))
      | some (q, now) => Stored s (ofReply (s.project.guarded s.host body)) q now := by
  unfold isGranted
  cases hlock : (s.host.acquire s.project.writer (lockFile s.project.indexFile)).2 with
  | error f =>
      obtain ⟨hp, hd, -⟩ := Project.guarded_of_refused body hlock
      exact ⟨hp, hd⟩
  | ok _ =>
      obtain ⟨hp, hd, -⟩ := Project.guarded_of_granted body hlock
      cases change? with
      | none => exact ⟨hp.trans hbody.1, hd.trans hbody.2⟩
      | some c => exact ⟨hp.trans hbody.1, hd.trans hbody.2⟩

/-- **What an event can do.** An operation leaves the project as it is or stores a state of it. -/
theorem after_cases (s : Session) {event : Event} (h : event.IsOwn) :
    match s.change? read event with
      | none => Idle s (s.after read event)
      | some (q, now) => Stored s (s.after read event) q now := by
  cases event with
  | outside host => exact h.elim
  | indexAll now incremental stopAt =>
      refine guarded_cases s ?_
      unfold Event.change?
      dsimp only
      cases hscanner : s.project.scanner s.seen with
      | error f => exact ⟨rfl, rfl⟩
      | ok scanner => exact ⟨rfl, rfl⟩
  | indexOne now path =>
      refine guarded_cases s ?_
      unfold Event.change?
      dsimp only
      cases s.project.entryFor? read s.seen path with
      | none => exact ⟨rfl, rfl⟩
      | some found => exact ⟨rfl, rfl⟩
  | removeFile now path =>
      refine guarded_cases s ?_
      unfold Event.change?
      dsimp only
      cases s.project.idOf s.seen path with
      | error f => exact ⟨rfl, rfl⟩
      | ok id =>
          dsimp only
          by_cases hid : s.project.index.files.contains id = true
          · rw [if_pos hid, if_pos hid]
            exact ⟨rfl, rfl⟩
          · rw [if_neg hid, if_neg hid]
            exact ⟨rfl, rfl⟩
  | changeScope now changes =>
      refine guarded_cases s ?_
      unfold Event.change?
      dsimp only
      cases s.project.index.scope.setAll changes with
      | error field => exact ⟨rfl, rfl⟩
      | ok scope =>
          cases s.project.settings.scope.setAll changes with
          | error field => exact ⟨rfl, rfl⟩
          | ok given => exact ⟨rfl, rfl⟩
  | clear now =>
      refine guarded_cases s ?_
      exact ⟨rfl, rfl⟩

/-- The same for all events: a change from outside, nothing, or a new state. -/
theorem after_or (s : Session) (event : Event) :
    (∃ host, event = .outside host) ∨ Idle s (s.after read event) ∨
      ∃ q now, event.change? read s.project s.seen = some (q, now) ∧
        Stored s (s.after read event) q now := by
  by_cases hown : event.IsOwn
  · right
    have hcases := s.after_cases read hown
    rw [change?] at hcases
    split at hcases
    · exact .inl hcases
    · next q now hchange =>
      split at hchange
      · exact .inr ⟨q, now, hchange, hcases⟩
      · cases hchange
  · left
    cases event with
    | outside host => exact ⟨host, rfl⟩
    | _ => exact absurd trivial hown

variable {read}

/-- An operation leaves the project where it is. -/
theorem Event.samePlace_of_change? {p q : Project} {d : Disk} {event : Event} {now : Number}
    (h : event.change? read p d = some (q, now)) : Project.SamePlace p q := by
  cases event with
  | outside host => cases h
  | clear time =>
      cases h
      exact p.samePlace_withIndex _
  | indexAll time incremental stopAt =>
      rw [Event.change?] at h
      split at h
      · cases h
      · cases h
        exact p.samePlace_withFiles _
  | indexOne time path =>
      rw [Event.change?] at h
      split at h
      · cases h
      · cases h
        exact p.samePlace_withFiles _
  | removeFile time path =>
      rw [Event.change?] at h
      split at h
      · cases h
      · split at h
        · cases h
          exact p.samePlace_withFiles _
        · cases h
  | changeScope time changes =>
      rw [Event.change?] at h
      split at h
      · cases h
        exact p.samePlace_withScope _ _
      · cases h

/-- Where an entry may come from that an operation stores: it was there before, it was read from a
file that a scan has found, or from the one file that was to be indexed. -/
inductive Event.Source (read : FileReader) (p : Project) (d : Disk) (id : String) (e : FileEntry) :
    Event → Prop
  | before {event : Event} (hget : p.index.files.get? id = some e) : Source read p d id e event
  | found {now : Number} {incremental : Bool} {stopAt : Option Nat} {scanner : Scanner}
      {f : Scan.Found} (hscanner : p.scanner d = .ok scanner) (hf : f ∈ scanner.scan d)
      (hid : f.id = id) (hread : read ⟨"/", p.root ++ f.way⟩ f.contents id = .ok (some e)) :
      Source read p d id e (.indexAll now incremental stopAt)
  | visited {now : Number} {path : Path} (hentry : p.entryFor? read d path = some (id, e)) :
      Source read p d id e (.indexOne now path)

/-- **Every entry has a source.** -/
theorem Event.source_of_change? {p q : Project} {d : Disk} {event : Event} {now : Number}
    (h : event.change? read p d = some (q, now)) {id : String} {e : FileEntry}
    (hget : q.index.files.get? id = some e) : Event.Source read p d id e event := by
  cases event with
  | outside host => cases h
  | clear time =>
      cases h
      cases hget
  | indexAll time incremental stopAt =>
      rw [Event.change?] at h
      split at h
      · cases h
      · next scanner hscanner =>
        cases h
        obtain ⟨works, hfirst, hrun⟩ :=
          Project.get?_of_runOver read incremental stopAt p (scanner.scan d)
        rcases Project.Work.get?_applyAll read incremental (hrun id e hget) with
          hbefore | ⟨w, hw, rfl, hread⟩
        · exact .before hbefore
        · obtain ⟨f, hf, rfl⟩ := List.mem_map.mp (hfirst.subset hw)
          exact .found hscanner hf rfl hread
  | indexOne time path =>
      rw [Event.change?] at h
      split at h
      · cases h
      · next id' e' hentry =>
        cases h
        rw [Project.files_withFiles, Roster.get?_put] at hget
        split at hget
        · next hsame =>
          subst hsame
          cases hget
          exact .visited hentry
        · exact .before hget
  | removeFile time path =>
      rw [Event.change?] at h
      split at h
      · cases h
      · split at h
        · cases h
          rw [Project.files_withFiles, Roster.get?_erase] at hget
          split at hget
          · cases hget
          · exact .before hget
        · cases h
  | changeScope time changes =>
      rw [Event.change?] at h
      split at h
      · cases h
        exact .before hget
      · cases h

/-! ### What is stored can be loaded -/

/-- A new state of the same project: whatever is not in its index or its scope has not changed. -/
structure Renewed (p q : Project) : Prop where
  root : q.root = p.root
  indexFile : q.indexFile = p.indexFile
  writer : q.writer = p.writer
  settings : q.settings = { p.settings with scope := q.index.scope }

/-- Other files that are dated make another state that can be stored. -/
theorem kept_withFiles {p : Project} (hp : p.Kept) {files : Roster String FileEntry}
    (hfiles : ∀ id e, files.get? id = some e → e.modified.Representable) :
    (p.withFiles files).Kept ∧ Renewed p (p.withFiles files) := by
  refine ⟨⟨hp.version, hp.project, hp.scope, hp.indexed, hfiles⟩, ⟨rfl, rfl, rfl, ?_⟩⟩
  change p.settings = { p.settings with scope := p.index.scope }
  rw [← hp.scope]

/-- The entries that an operation stores are dated. -/
theorem Event.dated_of_change? (hread : read.Dates) {p q : Project} {d : Disk} {event : Event}
    {now : Number} (hp : p.Kept) (h : event.change? read p d = some (q, now)) (id : String)
    (e : FileEntry) (hget : q.index.files.get? id = some e) : e.modified.Representable := by
  cases Event.source_of_change? h hget with
  | before hget => exact hp.modified id e hget
  | found _ _ _ hfound => exact hread _ _ _ _ hfound
  | visited hentry => exact p.modified_of_entryFor? hread hentry

/-- **What an operation stores.** It is a new state of the project that can be loaded again, stored at
the time of the operation. -/
theorem Event.kept_of_change? (hread : read.Dates) {P : Number → Prop} {p q : Project} {d : Disk}
    {event : Event} {now : Number} (hp : p.Kept) (htime : event.HasTime P)
    (h : event.change? read p d = some (q, now)) :
    q.Kept ∧ Renewed p q ∧ P now := by
  have hdated := Event.dated_of_change? hread hp h
  cases event with
  | outside host => exact htime.elim
  | indexAll time incremental stopAt =>
      rw [Event.change?] at h
      split at h
      · cases h
      · cases h
        obtain ⟨hkept, hrenewed⟩ := kept_withFiles hp hdated
        exact ⟨hkept, hrenewed, htime⟩
  | indexOne time path =>
      rw [Event.change?] at h
      split at h
      · cases h
      · cases h
        obtain ⟨hkept, hrenewed⟩ := kept_withFiles hp hdated
        exact ⟨hkept, hrenewed, htime⟩
  | removeFile time path =>
      rw [Event.change?] at h
      split at h
      · cases h
      · split at h
        · cases h
          obtain ⟨hkept, hrenewed⟩ := kept_withFiles hp hdated
          exact ⟨hkept, hrenewed, htime⟩
        · cases h
  | changeScope time changes =>
      rw [Event.change?] at h
      rw [hp.scope] at h
      split at h
      · next scope given hscope hgiven =>
        rw [hscope] at hgiven
        cases hgiven
        cases h
        exact ⟨⟨hp.version, hp.project, rfl, hp.indexed, hdated⟩, ⟨rfl, rfl, rfl, rfl⟩, htime⟩
      · cases h
  | clear time =>
      cases h
      refine ⟨⟨rfl, rfl, hp.scope, .real ⟨false, 0, 0⟩, hdated⟩, ⟨rfl, rfl, rfl, ?_⟩, htime⟩
      change p.settings = { p.settings with scope := p.index.scope }
      rw [← hp.scope]

/-- What an event of a session stores is a new state of its project that can be loaded again. -/
theorem kept_of_change? (hread : read.Dates) {P : Number → Prop} {s : Session} {q : Project}
    {event : Event} {now : Number} (hp : s.project.Kept) (htime : event.HasTime P)
    (h : s.change? read event = some (q, now)) :
    q.Kept ∧ Renewed s.project q ∧ P now := by
  rw [change?] at h
  split at h
  · exact Event.kept_of_change? hread hp htime h
  · cases h

/-- What is stored at a time can be loaded. -/
theorem kept_persisted {p : Project} (hp : p.Kept) {now : Number} (hnow : now.Representable) :
    (p.persisted now).Kept :=
  ⟨hp.version, hp.project, hp.scope, hnow, hp.modified⟩

end Session

end Concordance
