import Concordance.Project.Manager
import Concordance.Proofs.Project.Failed

/-!
# Operations of a manager that fail

A manager does what its project does, unless a field of its scope that is no list cuts it short
(`Manager.perform_eq`). With lists in all fields, and characters that can be encoded, nothing is cut
short and the two are the same (`Manager.perform_of_lists`).

An operation that fails leaves the host as it was, up to the file of the lock. Of the manager it leaves
all as it was if the project has failed. But the project may have succeeded where the manager fails,
because the index could not be stored; then the manager has changed and the stored index has not
(`Manager.left_by_failure`).
-/

namespace Concordance

/-- Opening a draft writes an empty file. -/
theorem Disk.exists_of_openDraft? {d d' : Disk} {file : Path} (hlock : d.HasLockFile (lockFile file))
    (h : d.openDraft? file = some d') :
    ∃ place, d.writeWay linkBound [] (ProjectIndex.draftOf file).parts = .ok place ∧
      ChangedAt place d d' ∧ d'.at? place = some (.file []) := by
  have hfolder := hlock.folder
  rw [lockFile, Path.parent_withSuffix] at hfolder
  rw [openDraft?, makeFolders_of_leadsToFolder hfolder] at h
  dsimp only at h
  cases hwrite : d.write (ProjectIndex.draftOf file).parts [] with
  | error f =>
      rw [hwrite] at h
      cases h
  | ok made =>
      rw [hwrite] at h
      cases h
      unfold write at hwrite
      obtain ⟨place, hplace, hput⟩ := Attempt.exists_of_bind_eq_ok hwrite
      refine ⟨place, hplace, changedAt_put ?_ hput, at?_of_put hput⟩
      rcases of_writeWay hplace with hnone | ⟨old, -, hold⟩
      · exact hnone ▸ .missing
      · exact hold ▸ .file old

namespace Project

/-- The reply of a project to an operation that says whether it has done something. -/
structure Answers (p : Project) (h : Host) (r : Reply Bool) : Prop where
  /-- After it every lock is as it was. -/
  locks : ∀ file, r.host.lockOf file = h.lockOf file
  /-- Unless it has done something the project is as it was, on the disk that it saw. -/
  idle : r.answer ≠ .ok true → r.project = p ∧ r.host.disk = p.seen h
  /-- Its index is kept where it was. -/
  indexFile : r.project.indexFile = p.indexFile
  /-- Without the lock it says so. -/
  refused : (∀ f file, r.answer ≠ .error (.lock f file)) →
    (h.acquire p.writer (lockFile p.indexFile)).2 = .ok ()

/-- What only looks at the disk and does nothing. -/
theorem answers_guarded (p : Project) (h : Host) {answer : Except Fault Bool} :
    p.Answers h (p.guarded h fun d => (p, d, answer)) := by
  have hidle : (p.guarded h fun d => (p, d, answer)).project = p ∧
      (p.guarded h fun d => (p, d, answer)).host.disk = p.seen h := by
    cases hacquire : (h.acquire p.writer (lockFile p.indexFile)).2 with
    | error f =>
        obtain ⟨hproject, hdisk, -⟩ := guarded_of_refused _ hacquire
        exact ⟨hproject, hdisk⟩
    | ok _ =>
        obtain ⟨hproject, hdisk, -⟩ := guarded_of_granted (fun d => (p, d, answer)) hacquire
        exact ⟨hproject, hdisk⟩
  refine ⟨p.lockOf_guarded h _, fun _ => hidle, by rw [hidle.1], fun hlock => ?_⟩
  cases hacquire : (h.acquire p.writer (lockFile p.indexFile)).2 with
  | error f => exact absurd (guarded_of_refused _ hacquire).2.2 (hlock f _)
  | ok _ => rfl

end Project

namespace Session

variable (read : FileReader)

/-- What an event leaves and answers. -/
def reply (s : Session) (event : Event) : Project.Reply Bool :=
  ⟨(s.after read event).project, (s.after read event).host, s.answer read event⟩

/-- An operation of a project answers in this way. -/
theorem answers_reply (s : Session) {event : Event} (hown : event.IsOwn) :
    s.project.Answers s.host (s.reply read event) := by
  refine ⟨lockOf_after hown, fun hfails => ?_, ?_, fun hlock => ?_⟩
  · have hidle := idle_of_answer hfails
    exact ⟨hidle.project, hidle.disk⟩
  · rcases s.after_or read event with ⟨host, rfl⟩ | hidle | ⟨q, now, hchange, hstored⟩
    · exact hown.elim
    · exact congrArg Project.indexFile hidle.project
    · exact (congrArg Project.indexFile hstored.project).trans
        (Event.samePlace_of_change? hchange).indexFile
  · apply acquire_of_isGranted
    by_contra hrefused
    obtain ⟨f, hf⟩ := exists_lockFault hown (by simpa using hrefused)
    exact hlock _ _ hf

end Session

namespace Manager

/-! ### Events -/

/-- What may be asked of a manager. -/
inductive Event where
  | indexAll (now : Number) (incremental : Bool) (stopAt : Option Nat)
  | indexOne (now : Number) (path : Path)
  | removeFile (now : Number) (path : Path)
  | changeScope (now : Number) (changes : List Change)
  | clear (now : Number)

namespace Event

/-- The same asked of the project. -/
def inLists : Event → Session.Event
  | .indexAll now incremental stopAt => .indexAll now incremental stopAt
  | .indexOne now path => .indexOne now path
  | .removeFile now path => .removeFile now path
  | .changeScope now changes => .changeScope now (changes.map Change.inLists)
  | .clear now => .clear now

/-- Which lists are none once it is done. -/
def note (x : Misfits) : Event → Misfits
  | .changeScope _ changes => changes.foldl Change.note x
  | _ => x

/-- How it is cut short. -/
def cut? (m : Manager) (d : Disk) : Event → Option (Except Project.Fault Bool)
  | .indexAll _ _ _ => (m.cutRun d).map fun a => a.map fun _ => true
  | .indexOne _ _ => if m.lacksScanner d then some (.ok false) else none
  | .removeFile _ _ => if m.lacksScanner d then some (.error .notAList) else none
  | .changeScope _ _ | .clear _ => none

/-- Every field that is changed gets a list. -/
def IsProper : Event → Prop
  | .changeScope _ changes => ∀ c ∈ changes, ∃ change, c = .proper change
  | _ => True

theorem isOwn_inLists (event : Event) : event.inLists.IsOwn := by
  cases event <;> trivial

end Event

variable (isEncodable : Char → Bool) (read : FileReader)

/-- A reply that says only whether something was done. -/
def Reply.told {α : Type} (r : Reply α) (done : α → Bool) : Reply Bool :=
  ⟨r.manager, r.host, r.answer.map done⟩

/-- What a manager leaves and answers. -/
def perform (m : Manager) (h : Host) : Event → Reply Bool
  | .indexAll now incremental stopAt =>
    (m.indexAll isEncodable h read now incremental stopAt).told fun _ => true
  | .indexOne now path => (m.indexOne isEncodable h read now path).told Option.isSome
  | .removeFile now path => m.removeFile isEncodable h now path
  | .changeScope now changes => (m.changeScope isEncodable h now changes).told fun _ => true
  | .clear now => (m.clear isEncodable h now).told fun _ => true

/-- The session of a manager's project. -/
def session (m : Manager) (h : Host) : Session := ⟨m.project, h⟩

/-- Whether an operation comes to storing the index: it is not cut short, and the project does what was
asked. -/
def stores (m : Manager) (h : Host) (event : Event) : Bool :=
  (event.cut? m (m.project.seen h)).isNone &&
    (m.session h).answer read event.inLists == .ok true

/-! ### A manager and its project -/

section

variable {α : Type} (done : α → Bool)

/-- A reply of a project that says only whether something was done. -/
def toldBy (r : Project.Reply α) : Project.Reply Bool := ⟨r.project, r.host, r.answer.map done⟩

/-- Whether something was done may be told before or after the end. -/
theorem told_conclude (m : Manager) (h : Host) (x : Misfits) (r : Project.Reply α) :
    (m.conclude isEncodable h x done r).told done =
      m.conclude isEncodable h x id (toldBy done r) := by
  unfold conclude toldBy Reply.told
  cases r.answer with
  | error f => rfl
  | ok a =>
      simp only [Except.map, id_eq]
      split <;> rfl

theorem toldBy_guarded (p : Project) (h : Host) (answer : Except Project.Fault α) :
    toldBy done (p.guarded h fun d => (p, d, answer)) =
      p.guarded h fun d => (p, d, answer.map done) := by
  unfold toldBy Project.guarded
  dsimp only
  split <;> rfl

theorem toldBy_unlessCut (m : Manager) (h : Host) (cut : Disk → Option (Except Project.Fault α))
    (r : Project.Reply α) :
    toldBy done (m.unlessCut h cut r) =
      m.unlessCut h (fun d => (cut d).map (Except.map done)) (toldBy done r) := by
  unfold unlessCut
  dsimp only
  cases cut (m.project.seen h) with
  | none => rfl
  | some answer => exact toldBy_guarded done m.project h answer

end

/-- **A manager does what its project does,** unless it is cut short; at the end it may turn out that
the index cannot be stored. -/
theorem perform_eq (m : Manager) (h : Host) (event : Event) :
    m.perform isEncodable read h event =
      m.conclude isEncodable h (event.note m.misfits) id
        (m.unlessCut h (event.cut? m) ((m.session h).reply read event.inLists)) := by
  cases event with
  | indexAll now incremental stopAt =>
      rw [perform, indexAll, told_conclude, toldBy_unlessCut]
      rfl
  | indexOne now path =>
      rw [perform, indexOne, told_conclude, toldBy_unlessCut]
      congr 2
      funext d
      rw [Event.cut?]
      split <;> rfl
  | removeFile now path => rfl
  | changeScope now changes =>
      rw [perform, changeScope, told_conclude]
      rfl
  | clear now =>
      rw [perform, clear, told_conclude]
      rfl

variable {isEncodable} {read} {m : Manager} {h : Host} {event : Event}

/-- With lists in all fields nothing is cut short. -/
theorem cut?_of_lists (hlists : m.misfits = {}) (event : Event) (d : Disk) :
    event.cut? m d = none := by
  have hlanguages : m.lacksScanner d = false := by
    rw [lacksScanner, hlists]
    rfl
  have hstops (s : Scanner) : m.misfits.stops s d = false := by
    have hnowhere : Misfits.stopsAt {} s = fun _ => false := by
      funext id
      simp [Misfits.stopsAt]
    simp [Misfits.stops, hlists, hnowhere]
  cases event with
  | indexAll now incremental stopAt =>
      have hrun : m.cutRun d = none := by
        simp [cutRun, hlanguages, hstops]
      rw [Event.cut?, hrun]
      rfl
  | indexOne now path => simp [Event.cut?, hlanguages]
  | removeFile now path => simp [Event.cut?, hlanguages]
  | changeScope now changes => rfl
  | clear now => rfl

/-- Proper changes leave lists in all fields. -/
theorem note_of_lists (hlists : m.misfits = {}) (hproper : event.IsProper) :
    event.note m.misfits = {} := by
  cases event with
  | changeScope now changes =>
      rw [Event.note, hlists]
      induction changes with
      | nil => rfl
      | cons c changes ih =>
          obtain ⟨change, rfl⟩ := hproper c (List.mem_cons_self)
          have hnote : Change.note {} (.proper change) = {} := by
            cases change with
            | list field value => cases field <;> rfl
            | name value => rfl
            | unknown field => rfl
          rw [List.foldl_cons, hnote]
          exact ih fun c' hc' => hproper c' (List.mem_cons_of_mem _ hc')
  | indexAll now incremental stopAt => exact hlists
  | indexOne now path => exact hlists
  | removeFile now path => exact hlists
  | clear now => exact hlists

/-- **With lists in all fields, and characters that can be encoded, a manager is its project.** -/
theorem perform_of_lists (hlists : m.misfits = {}) (hproper : event.IsProper)
    (hencodes : ∀ c ∈ ((m.session h).after read event.inLists).project.index.stored.toList,
      isEncodable c = true) :
    m.perform isEncodable read h event =
      ⟨⟨((m.session h).after read event.inLists).project, {}⟩,
        ((m.session h).after read event.inLists).host,
        (m.session h).answer read event.inLists⟩ := by
  have hstores : failure? isEncodable ⟨((m.session h).after read event.inLists).project, {}⟩
      (m.project.seen h) = none := by
    rw [ProjectIndex.stored, Json.render, String.toList_ofList] at hencodes
    rw [failure?, if_neg (by simp), if_pos (List.all_eq_true.mpr hencodes)]
  rw [perform_eq, note_of_lists hlists hproper, unlessCut, cut?_of_lists hlists]
  unfold conclude Session.reply
  dsimp only
  rw [hstores]
  cases (m.session h).answer read event.inLists with
  | error f => rw [hlists]
  | ok done => cases done <;> rfl

/-! ### What is left by a failure -/

variable (read m h event)

/-- What the project replies where the manager does not cut it short. -/
def projectReply : Project.Reply Bool :=
  m.unlessCut h (event.cut? m) ((m.session h).reply read event.inLists)

/-- So does one that a manager may cut short. -/
theorem answers_projectReply : m.project.Answers h (m.projectReply read h event) := by
  unfold projectReply unlessCut
  split
  · exact m.project.answers_guarded h
  · exact (m.session h).answers_reply read event.isOwn_inLists

/-- The manager after an operation of its project. -/
def next : Manager := ⟨(m.projectReply read h event).project, event.note m.misfits⟩

variable {read m h event}

/-- What is cut short has done nothing. -/
theorem ne_of_cut? {d : Disk} {answer : Except Project.Fault Bool}
    (hcut : event.cut? m d = some answer) : answer ≠ .ok true := by
  rintro rfl
  cases event with
  | indexAll now incremental stopAt =>
      simp only [Event.cut?, cutRun, Option.map_eq_some_iff] at hcut
      obtain ⟨a, ha, htrue⟩ := hcut
      split at ha
      · cases ha
        cases htrue
      · cases ha
  | indexOne now path =>
      rw [Event.cut?] at hcut
      split at hcut <;> cases hcut
  | removeFile now path =>
      rw [Event.cut?] at hcut
      split at hcut <;> cases hcut
  | changeScope now changes => cases hcut
  | clear now => cases hcut

/-- The project has done something if and only if the operation comes to storing the index. -/
theorem answer_projectReply_iff :
    (m.projectReply read h event).answer = .ok true ↔ m.stores read h event = true := by
  unfold projectReply unlessCut stores
  dsimp only
  cases hcut : event.cut? m (m.project.seen h) with
  | none => simp [Session.reply]
  | some answer =>
      have hnot : (m.project.guarded h fun d => (m.project, d, answer)).answer ≠ .ok true := by
        intro hok
        cases hacquire : (h.acquire m.project.writer (lockFile m.project.indexFile)).2 with
        | error f =>
            rw [(Project.guarded_of_refused _ hacquire).2.2] at hok
            cases hok
        | ok _ =>
            rw [(Project.guarded_of_granted _ hacquire).2.2] at hok
            exact ne_of_cut? hcut hok
      simpa using hnot

/-- Then the manager after it has the project that was to be stored. -/
theorem next_of_stores (hstores : m.stores read h event = true) :
    m.next read h event =
      ⟨((m.session h).after read event.inLists).project, event.note m.misfits⟩ := by
  have hcut : event.cut? m (m.project.seen h) = none := by
    simp only [stores, Bool.and_eq_true, Option.isNone_iff_eq_none] at hstores
    exact hstores.1
  rw [next, projectReply, unlessCut, hcut]
  rfl

/-- Without a change of the scope the same fields are lists. -/
theorem note_of_answer (hidle : (m.projectReply read h event).answer = .ok false) :
    event.note m.misfits = m.misfits := by
  cases event with
  | changeScope now changes =>
      -- a change of the scope that has not failed has done something
      have hmap : ((m.project.changeScope h now (changes.map Change.inLists)).answer.map
          fun _ => true) = .ok false := hidle
      cases hanswer : (m.project.changeScope h now (changes.map Change.inLists)).answer with
      | error f =>
          rw [hanswer] at hmap
          cases hmap
      | ok scope =>
          rw [hanswer] at hmap
          cases hmap
  | _ => rfl

/-- If the project has done nothing the manager is as it was, and the rest is what the project
leaves. -/
theorem perform_of_idle (hidle : (m.projectReply read h event).answer ≠ .ok true) :
    m.perform isEncodable read h event =
      ⟨m, (m.projectReply read h event).host, (m.projectReply read h event).answer⟩ := by
  have hproject := ((m.answers_projectReply read h event).idle hidle).1
  rw [perform_eq]
  change m.conclude isEncodable h (event.note m.misfits) id (m.projectReply read h event) = _
  unfold conclude
  cases hanswer : (m.projectReply read h event).answer with
  | error f =>
      dsimp only
      rw [hproject]
  | ok done =>
      cases done with
      | true => exact absurd hanswer hidle
      | false =>
          dsimp only
          rw [hproject, note_of_answer hanswer]
          rfl

/-- If the project has done something, the manager has changed and the rest hangs on how the index is
stored. -/
theorem perform_of_done (hdone : (m.projectReply read h event).answer = .ok true) :
    m.perform isEncodable read h event =
      ((m.next read h event).failure? isEncodable (m.project.seen h)).elim
        ⟨m.next read h event, (m.projectReply read h event).host, .ok true⟩
        fun failure => ⟨m.next read h event,
          { (m.projectReply read h event).host with disk := failure.1 }, .error failure.2⟩ := by
  rw [perform_eq]
  change m.conclude isEncodable h (event.note m.misfits) id (m.projectReply read h event) = _
  unfold conclude next
  rw [hdone]
  dsimp only [id_eq, ↓reduceIte]
  cases failure? isEncodable ⟨(m.projectReply read h event).project, event.note m.misfits⟩
      (m.project.seen h) with
  | none => rfl
  | some failure => rfl

/-- The ways in which storing fails. -/
theorem failure?_cases {d : Disk} {failure : Disk × Project.Fault}
    (hfailure : m.failure? isEncodable d = some failure) :
    failure = (d, .notAList) ∧ m.misfits ≠ {} ∨
      failure.2 = .unencodable ∧ d.openDraft? m.project.indexFile = some failure.1 ∧
        m.misfits = {} ∧ ∃ c ∈ m.project.index.stored.toList, isEncodable c = false := by
  unfold failure? at hfailure
  split at hfailure
  · next hmisfits =>
    cases hfailure
    exact .inl ⟨rfl, by simpa using hmisfits⟩
  · next hlists =>
    split at hfailure
    · cases hfailure
    · next hall =>
      obtain ⟨d', hd', rfl⟩ := Option.map_eq_some_iff.mp hfailure
      have hchar : ∃ c ∈ m.project.index.stored.toList, isEncodable c = false := by
        rw [ProjectIndex.stored, Json.render, String.toList_ofList]
        simpa using hall
      exact .inr ⟨rfl, hd', by simpa using hlists, hchar⟩

/-- If the project has done something and the manager fails, the index could not be stored. -/
theorem exists_failure (hfails : (m.perform isEncodable read h event).answer ≠ .ok true)
    (hdone : (m.projectReply read h event).answer = .ok true) :
    ∃ failure, (m.next read h event).failure? isEncodable (m.project.seen h) = some failure ∧
      m.perform isEncodable read h event = ⟨m.next read h event,
        { (m.projectReply read h event).host with disk := failure.1 }, .error failure.2⟩ := by
  rw [perform_of_done hdone] at hfails ⊢
  cases hfailure : (m.next read h event).failure? isEncodable (m.project.seen h) with
  | none =>
      rw [hfailure] at hfails
      exact absurd rfl hfails
  | some failure => exact ⟨failure, rfl, rfl⟩

/-- A failure leaves every lock as it was. -/
theorem lockOf_of_failure (hfails : (m.perform isEncodable read h event).answer ≠ .ok true)
    (file : Path) : (m.perform isEncodable read h event).host.lockOf file = h.lockOf file := by
  have hlocks := (m.answers_projectReply read h event).locks file
  by_cases hdone : (m.projectReply read h event).answer = .ok true
  · obtain ⟨failure, -, hperform⟩ := exists_failure hfails hdone
    rw [hperform]
    exact hlocks
  · rw [perform_of_idle hdone]
    exact hlocks

/-- The lock was had, unless the failure says otherwise. -/
theorem acquire_of_failure
    (hanswer : ∀ f file, (m.perform isEncodable read h event).answer ≠ .error (.lock f file)) :
    (h.acquire m.project.writer (lockFile m.project.indexFile)).2 = .ok () := by
  refine (m.answers_projectReply read h event).refused fun f file hlock => ?_
  refine hanswer f file ?_
  rw [perform_of_idle (by rw [hlock]; simp), hlock]

/-- The disk that a failure leaves is the one that the lock was asked on, or a draft was opened there
and left empty. -/
theorem disk_of_failure (hfails : (m.perform isEncodable read h event).answer ≠ .ok true) :
    (m.perform isEncodable read h event).host.disk = m.project.seen h ∨
      (m.perform isEncodable read h event).answer = .error .unencodable ∧
        ∃ place, (m.project.seen h).writeWay Disk.linkBound []
            (ProjectIndex.draftOf m.project.indexFile).parts = .ok place ∧
          Disk.ChangedAt place (m.project.seen h) (m.perform isEncodable read h event).host.disk ∧
          (m.perform isEncodable read h event).host.disk.at? place = some (.file []) := by
  have hanswers := m.answers_projectReply read h event
  by_cases hdone : (m.projectReply read h event).answer = .ok true
  · obtain ⟨failure, hfailure, hperform⟩ := exists_failure hfails hdone
    rw [hperform]
    rcases failure?_cases hfailure with ⟨rfl, -⟩ | ⟨hfault, hdraft, -⟩
    · exact .inl rfl
    · have hlock := hanswers.refused fun f file => by simp [hdone]
      have hdraft' : (m.project.seen h).openDraft? m.project.indexFile = some failure.1 :=
        hanswers.indexFile ▸ hdraft
      refine .inr ⟨congrArg Except.error hfault, ?_⟩
      exact Disk.exists_of_openDraft?
        (Disk.hasLockFile_of_makeLockFile (Host.of_acquire hlock).2) hdraft'
  · rw [perform_of_idle hdone]
    exact .inl (hanswers.idle hdone).2

/-- A failure spares the host, apart from the draft that it may have left empty. -/
theorem spared_of_failure (hfails : (m.perform isEncodable read h event).answer ≠ .ok true) :
    ∃ spoilt, m.project.Spared spoilt h (m.perform isEncodable read h event).host ∧
      ∀ place ∈ spoilt, (m.perform isEncodable read h event).answer = .error .unencodable ∧
        (m.project.seen h).writeWay Disk.linkBound []
          (ProjectIndex.draftOf m.project.indexFile).parts = .ok place ∧
        (m.perform isEncodable read h event).host.disk.at? place = some (.file []) := by
  have hlocks := lockOf_of_failure hfails
  rcases disk_of_failure hfails with hdisk | ⟨hanswer, place, hplace, hchanged, hempty⟩
  · exact ⟨none, Project.spared_of_seen hdisk hlocks, by simp⟩
  · refine ⟨some place, Project.spared_of_changedAt hchanged hlocks, ?_⟩
    rintro _ ⟨⟩
    exact ⟨hanswer, hplace, hempty⟩

/-- Once the lock was had its file is there after a failure. -/
theorem hasLockFile_of_failure (hfails : (m.perform isEncodable read h event).answer ≠ .ok true)
    (hlock : (h.acquire m.project.writer (lockFile m.project.indexFile)).2 = .ok ()) :
    (m.perform isEncodable read h event).host.disk.HasLockFile (lockFile m.project.indexFile) := by
  have hseen : (m.project.seen h).HasLockFile (lockFile m.project.indexFile) :=
    Disk.hasLockFile_of_makeLockFile (Host.of_acquire hlock).2
  rcases disk_of_failure hfails with hdisk | ⟨-, place, -, hchanged, hempty⟩
  · exact hdisk ▸ hseen
  · exact hseen.of_changedAt hchanged hempty

/-- An operation that comes to storing the index and fails leaves the manager that was to be stored. A
field of its scope is no list, or some character of the text to be stored cannot be encoded. -/
theorem manager_of_stores (hfails : (m.perform isEncodable read h event).answer ≠ .ok true)
    (hstores : m.stores read h event = true) :
    (m.perform isEncodable read h event).manager =
        ⟨((m.session h).after read event.inLists).project, event.note m.misfits⟩ ∧
      ((m.perform isEncodable read h event).answer = .error .notAList ∧
          event.note m.misfits ≠ {} ∨
        (m.perform isEncodable read h event).answer = .error .unencodable ∧
          event.note m.misfits = {} ∧
          ∃ c ∈ ((m.session h).after read event.inLists).project.index.stored.toList,
            isEncodable c = false) := by
  obtain ⟨failure, hfailure, hperform⟩ :=
    exists_failure hfails (answer_projectReply_iff.mpr hstores)
  rw [next_of_stores hstores] at hfailure hperform
  rw [hperform]
  refine ⟨rfl, ?_⟩
  rcases failure?_cases hfailure with ⟨rfl, hmisfits⟩ | ⟨hfault, -, hlists, hchar⟩
  · exact .inl ⟨rfl, hmisfits⟩
  · exact .inr ⟨congrArg Except.error hfault, hlists, hchar⟩

/-- **What is left by an operation that fails.** The files on the disk and the locks are as they were,
and unless the lock itself could not be had it can be taken again. The manager is as it was, unless
the operation came to storing the index; then it is what it would be had the index been stored. That
takes a field of the scope that is no list, or a character that cannot be encoded. Only in the latter
case a file is touched on the disk: the draft of the index, which is left empty. -/
theorem left_by_failure (isEncodable : Char → Bool) (read : FileReader) (m : Manager) (h : Host)
    (event : Event) (hfails : (m.perform isEncodable read h event).answer ≠ .ok true) :
    (∃ spoilt, m.project.Spared spoilt h (m.perform isEncodable read h event).host ∧
      ∀ place ∈ spoilt, (m.perform isEncodable read h event).answer = .error .unencodable ∧
        (m.project.seen h).writeWay Disk.linkBound []
          (ProjectIndex.draftOf m.project.indexFile).parts = .ok place ∧
        (m.perform isEncodable read h event).host.disk.at? place = some (.file [])) ∧
      ((∀ f file, (m.perform isEncodable read h event).answer ≠ .error (.lock f file)) →
        ∀ who, (h.lockOf (lockFile m.project.indexFile)).holds who = false →
          ((m.perform isEncodable read h event).host.acquire who
            (lockFile m.project.indexFile)).2 = .ok ()) ∧
      (m.misfits = {} → event.IsProper →
        (∀ c ∈ ((m.session h).after read event.inLists).project.index.stored.toList,
          isEncodable c = true) → (m.perform isEncodable read h event).manager = m) ∧
      (m.stores read h event = false → (m.perform isEncodable read h event).manager = m) ∧
      (m.stores read h event = true →
        (m.perform isEncodable read h event).manager =
            ⟨((m.session h).after read event.inLists).project, event.note m.misfits⟩ ∧
          ((m.perform isEncodable read h event).answer = .error .notAList ∧
              event.note m.misfits ≠ {} ∨
            (m.perform isEncodable read h event).answer = .error .unencodable ∧
              event.note m.misfits = {} ∧
              ∃ c ∈ ((m.session h).after read event.inLists).project.index.stored.toList,
                isEncodable c = false)) := by
  have hidle (hstores : m.stores read h event = false) :
      (m.perform isEncodable read h event).manager = m := by
    rw [perform_of_idle (by rw [ne_eq, answer_projectReply_iff, hstores]; simp)]
  refine ⟨spared_of_failure hfails, fun hanswer who hwho => ?_, fun hlists hproper hencodes => ?_,
    hidle, manager_of_stores hfails⟩
  · have hlock := acquire_of_failure hanswer
    exact Project.acquire_of_hasLockFile hlock (hasLockFile_of_failure hfails hlock)
      (lockOf_of_failure hfails) hwho
  · refine hidle (Bool.eq_false_iff.mpr fun hstores => ?_)
    rcases (manager_of_stores hfails hstores).2 with ⟨-, hmisfits⟩ | ⟨-, -, c, hc, hnot⟩
    · exact hmisfits (note_of_lists hlists hproper)
    · rw [hencodes c hc] at hnot
      cases hnot

/-- All characters but one can be encoded. -/
def encodesMost (c : Char) : Bool := c != '\uFFFD'

/-- A reader that finds no file in a language it knows. -/
def readsNothing : FileReader := fun _ _ _ => .ok none

/-- A disk with a project that has a stored index and some other files. -/
def diskWith (files : List (String × Entry)) : Disk :=
  ⟨[("p", .folder (files ++
    [("a.py", .file [120]), (".polyindex", .folder [("index.json", .file [123, 125])])]))]⟩

/-- The manager that opens a project. -/
def opened (d : Disk) : Manager := ⟨.openStored d ["p"] {} none 0, {}⟩

/-- A disk with ignore rules that are no text. -/
def brokenRules : Disk := diskWith [(".gitignore", .file [255])]

/-- Operations that fail there, each in its own way. -/
def failures : List (Event × Except Project.Fault Bool) :=
  [(.indexAll (.integer 1) true none, .error .undecodableRules),
    (.indexOne (.integer 1) (.ofString "a.py"), .ok false),
    (.removeFile (.integer 1) (.ofString "b.py"), .error .undecodableRules),
    (.changeScope (.integer 1) [.proper (.name "n"), .misfit .included true,
      .proper (.unknown "colour")], .error (.unknownField "colour"))]

/-- A manager with some files in its index. -/
def indexing (ids : List String) (misfits : Misfits) : Manager where
  project := (opened (diskWith [])).project.withFiles <| ids.foldl
    (fun files id => files.put id { file := id, language := "python", digest := "" }) Roster.empty
  misfits

/-- A manager that was told to include `5`, and one with a name that cannot be encoded. -/
def unstorable : List (Manager × Project.Fault × List String) :=
  [(indexing ["a.py"] { included := some true }, .notAList, []),
    (indexing ["a.py", "\uFFFD.py"] {}, .unencodable, ["\uFFFD.py"])]

/-- Removing a file. -/
def removal : Event := .removeFile (.integer 1) (.ofString "a.py")

/-- What such a reader makes a manager reply on a disk. -/
def replyOn (m : Manager) (d : Disk) (event : Event) : Reply Bool :=
  m.perform encodesMost readsNothing { disk := d } event

/-- Those operations fail before they come to storing the index. -/
theorem answer_of_mem_failures : ∀ f ∈ failures,
    ((opened brokenRules).replyOn brokenRules f.1).answer = f.2 ∧
      (opened brokenRules).stores readsNothing { disk := brokenRules } f.1 = false := by
  decide +kernel

/-- The removal comes to storing the index, which fails. -/
theorem answer_of_mem_unstorable : ∀ u ∈ unstorable,
    u.1.project.index.files.keys = "a.py" :: u.2.2 ∧
      (u.1.replyOn (diskWith []) removal).answer = .error u.2.1 ∧
      u.1.stores readsNothing { disk := diskWith [] } removal = true ∧
      ((u.1.session { disk := diskWith [] }).after readsNothing
        removal.inLists).project.index.files.keys = u.2.2 := by
  decide +kernel

/-- The draft is another file than the index, and the lock is free. -/
theorem places_of_mem_unstorable : ∀ u ∈ unstorable,
    (diskWith []).read? ["p", ".polyindex", "index.json"] = some [123, 125] ∧
      (u.1.project.seen { disk := diskWith [] }).locate ["p", ".polyindex", "index.json"] =
        .ok ["p", ".polyindex", "index.json"] ∧
      (u.1.project.seen { disk := diskWith [] }).writeWay Disk.linkBound []
          (ProjectIndex.draftOf u.1.project.indexFile).parts =
        .ok ["p", ".polyindex", "index.json.tmp"] ∧
      (Host.lockOf { disk := diskWith [] } (lockFile u.1.project.indexFile)).holds 1 = false := by
  decide +kernel

/-- Where rules are no text, or a field is unknown, the manager is as it was. Where the index cannot be
stored the file is removed from it although the removal fails. In either case the stored index is the
same, and another writer gets the lock. -/
theorem left_by_failure_thrice :
    (failures.Forall fun f =>
      ((opened brokenRules).replyOn brokenRules f.1).answer = f.2 ∧
        ((opened brokenRules).replyOn brokenRules f.1).manager = opened brokenRules ∧
        ((opened brokenRules).replyOn brokenRules f.1).host.disk.read?
          ["p", ".polyindex", "index.json"] = some [123, 125] ∧
        (((opened brokenRules).replyOn brokenRules f.1).host.acquire 1
          (lockFile (opened brokenRules).project.indexFile)).2 = .ok ()) ∧
    unstorable.Forall fun u =>
      u.1.project.index.files.keys = "a.py" :: u.2.2 ∧
        (u.1.replyOn (diskWith []) removal).answer = .error u.2.1 ∧
        (u.1.replyOn (diskWith []) removal).manager.project.index.files.keys = u.2.2 ∧
        (u.1.replyOn (diskWith []) removal).host.disk.read?
          ["p", ".polyindex", "index.json"] = some [123, 125] ∧
        ((u.1.replyOn (diskWith []) removal).host.acquire 1
          (lockFile u.1.project.indexFile)).2 = .ok () := by
  refine ⟨List.forall_iff_forall_mem.mpr fun f hf => ?_,
    List.forall_iff_forall_mem.mpr fun u hu => ?_⟩
  · obtain ⟨hanswer, hstores⟩ := answer_of_mem_failures f hf
    have hkind : f.2 ≠ .ok true ∧ f.2 ≠ .error .unencodable ∧
        ∀ fault file, f.2 ≠ .error (.lock fault file) := by
      simp only [failures, List.mem_cons, List.not_mem_nil, or_false] at hf
      rcases hf with rfl | rfl | rfl | rfl <;> simp
    obtain ⟨⟨spoilt, hspared, hspoilt⟩, hfree, -, hidle, -⟩ :=
      left_by_failure encodesMost readsNothing (opened brokenRules) { disk := brokenRules } f.1
        (hanswer ▸ hkind.1)
    refine ⟨hanswer, hidle hstores, hspared.files _ _ (by decide +kernel) fun place hplace => ?_,
      hfree (hanswer ▸ hkind.2.2) 1 (by decide +kernel)⟩
    exact absurd (hspoilt place hplace).1 (hanswer ▸ hkind.2.1)
  · have hremoval := answer_of_mem_unstorable u hu
    -- the reply is kept folded, lest it be evaluated
    generalize removal = event at hremoval ⊢
    obtain ⟨hkeys, hanswer, hstores, hremoved⟩ := hremoval
    obtain ⟨hread, hlocate, hdraft, hholds⟩ := places_of_mem_unstorable u hu
    have hkind : ∀ fault file, u.2.1 ≠ .lock fault file := by
      simp only [unstorable, List.mem_cons, List.not_mem_nil, or_false] at hu
      rcases hu with rfl | rfl <;> simp
    have hfails : (u.1.replyOn (diskWith []) event).answer ≠ .ok true ∧
        ∀ f file, (u.1.replyOn (diskWith []) event).answer ≠ .error (.lock f file) := by
      simp [hanswer, hkind]
    obtain ⟨⟨spoilt, hspared, hspoilt⟩, hfree, -, -, hdone⟩ :=
      left_by_failure encodesMost readsNothing u.1 { disk := diskWith [] } event hfails.1
    refine ⟨hkeys, hanswer, ?_, hspared.files _ _ hread fun place hplace => ?_,
      hfree hfails.2 1 hholds⟩
    · rw [replyOn, (hdone hstores).1]
      exact hremoved
    · have hother := (hspoilt place hplace).2.1
      rw [hdraft] at hother
      cases hother
      rw [hlocate]
      simp

/-- A disk without an index, whose lock is a link to the place of the index. -/
def linkedLock : Disk :=
  ⟨[("p", .folder [(".polyindex", .folder [("index.lock", .link (.ofString "index.json"))])])]⟩

-- The lock must not lead to the index: here its file, once made, is taken for a stored index.
example :
    linkedLock.read? (opened linkedLock).project.indexFile.parts = none ∧
      ((opened linkedLock).replyOn linkedLock removal).answer = .ok false ∧
      ((opened linkedLock).replyOn linkedLock removal).host.disk.read?
        (opened linkedLock).project.indexFile.parts = some [] := by
  decide +kernel

end Manager

end Concordance
