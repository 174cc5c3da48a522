import Concordance.Proofs.Project.Visit

/-!
# Operations that fail

An operation fails if it ends with a fault, if there is no entry to be had for the file that it is to
index, or if the file that it is to remove is not in the index. Then it has stored nothing
(`Session.idle_of_fails`): the project is what it was, and on the disk only the lock file was made.

What the lock needs is made where nothing stood, so every file that could be read is read as before.
A file where no file was can come about only in the place of the lock, or in a folder that was not
there. The index is there as little as before, unless a link makes one file of it and its lock
(`Project.read?_index_seen`).

The lock itself is as it was (`Project.lockOf_guarded`). Once its file is there the file need not be
made again (`Disk.makeLockFile_again`), so whoever asks for the lock next gets it.
-/

namespace Concordance

namespace Disk

/-! ### The file of the lock -/

/-- Once a file stands under the last name of a path, which was missing, the path leads to it. -/
theorem advance_concat_of_file {d d' : Disk} {way names folder : List String} {name : String}
    (hmissing : d.advance way (names ++ [name]) = .failed .missing)
    (hfolder : d.advance way names = .arrived folder)
    (hchanged : ChangedAt (folder ++ [name]) d d') {contents : Bytes}
    (hfile : d'.at? (folder ++ [name]) = some (.file contents)) :
    d'.advance way (names ++ [name]) = .arrived (folder ++ [name]) := by
  have hname : name ≠ ".." := by
    rintro rfl
    obtain ⟨⟨inner, hinner⟩, -⟩ := at?_of_advance_missing hmissing hfolder
    rw [advance_append, hfolder] at hmissing
    dsimp only at hmissing
    rw [advance, hinner] at hmissing
    cases hmissing
  have hsame : d'.advance way names = .arrived folder := by
    rw [hchanged.advance_eq, hfolder]
    rw [hfolder]
    exact fun heq => by simp at heq
  obtain ⟨inner, hinner⟩ := Entry.exists_folder_of_concat hfile
  have hlookup : inner.lookup name = some (.file contents) :=
    (Entry.at?_concat hinner name).symm.trans hfile
  have hinner' : d'.at? folder = some (.folder inner) := hinner
  rw [advance_append, hsame]
  dsimp only
  rw [advance, hinner']
  dsimp only
  rw [if_neg (by simpa using hname), hlookup]
  rfl

/-- A path that a new file was written under leads to the file. -/
theorem follow_of_writeWay {d d' : Disk} {place : List String} {contents : Bytes}
    (hchanged : ChangedAt place d d') (hnone : d.at? place = none)
    (hfile : d'.at? place = some (.file contents)) {fuel : Nat} :
    ∀ {way names : List String}, d.writeWay fuel way names = .ok place →
      d'.follow fuel way names = .ok place := by
  induction fuel with
  | zero => intro way names h; cases h
  | succ fuel ih =>
      intro way names h
      rw [writeWay] at h
      rw [follow]
      cases hadv : d.advance way names with
      | arrived stop =>
          -- a file was there already, and this is not where the new one was written
          rw [hadv] at h
          dsimp only at h
          split at h
          · next old hat =>
            cases h
            rw [hnone] at hat
            cases hat
          · cases h
      | link folder target rest =>
          rw [hadv] at h
          rw [hchanged.advance_eq (by rw [hadv]; trivial), hadv]
          exact ih h
      | failed f =>
          rw [hadv] at h
          cases f with
          | missing =>
              dsimp only at h
              split at h
              · next name folder hlast hfolder =>
                cases h
                have hnames := List.dropLast_append_getLast? name hlast
                rw [← hnames] at hadv
                rw [← hnames, advance_concat_of_file hadv hfolder hchanged hfile]
              · cases h
          | notAFolder => cases h
          | alreadyThere => cases h
          | isFolder => cases h
          | tooManyLinks => cases h

/-- **How a lock file is made.** The folders on its path are made. The path leads to a file then, or
a new one is written and the path leads to it. -/
theorem cases_of_makeLockFile {d d' : Disk} {file : Path}
    (h : Host.makeLockFile d file = .ok d') :
    ∃ made, d.makeFolders file.parent.parts = .ok made ∧ ∃ place contents,
      d'.locate file.parts = .ok place ∧ d'.at? place = some (.file contents) ∧
        (d' = made ∨ ChangedAt place made d' ∧ made.at? place = none) := by
  unfold Host.makeLockFile at h
  obtain ⟨made, hmade, h⟩ := Attempt.exists_of_bind_eq_ok h
  refine ⟨made, hmade, ?_⟩
  split at h
  · next contents hentry =>
    cases h
    unfold entry? at hentry
    split at hentry
    · next place hplace => exact ⟨place, contents, hplace, hentry, .inl rfl⟩
    · cases hentry
  · next hnofile =>
    unfold write at h
    obtain ⟨place, hplace, hput⟩ := Attempt.exists_of_bind_eq_ok h
    rcases of_writeWay hplace with hnone | ⟨old, hway, hold⟩
    · have hchanged : ChangedAt place made d' := changedAt_put (hnone ▸ .missing) hput
      have hfile := at?_of_put hput
      exact ⟨place, [], follow_of_writeWay hchanged hnone hfile hplace, hfile, .inr ⟨hchanged, hnone⟩⟩
    · have hway' : made.locate file.parts = .ok place := hway
      refine absurd ?_ (hnofile old)
      unfold entry?
      rw [hway']
      exact hold

/-- A lock file that is there: its folder is a folder, and its path leads to a file. -/
structure HasLockFile (d : Disk) (file : Path) : Prop where
  folder : d.LeadsToFolder file.parent.parts
  file : ∃ place contents, d.locate file.parts = .ok place ∧ d.at? place = some (.file contents)

/-- A lock file is there once it is made. -/
theorem hasLockFile_of_makeLockFile {d d' : Disk} {file : Path}
    (h : Host.makeLockFile d file = .ok d') : d'.HasLockFile file := by
  obtain ⟨made, hmade, place, contents, hplace, hfile, hwritten⟩ := cases_of_makeLockFile h
  refine ⟨?_, place, contents, hplace, hfile⟩
  obtain ⟨folder, inner, hfolder, hinner⟩ := leadsToFolder_makeFolders hmade
  rcases hwritten with rfl | ⟨hchanged, -⟩
  · exact ⟨folder, inner, hfolder, hinner⟩
  · obtain ⟨hne, inner', hinner'⟩ := hchanged.exists_folder ⟨inner, hinner⟩
    exact ⟨folder, inner', hchanged.locate hfolder hne, hinner'⟩

/-- **A lock file is made once.** -/
theorem HasLockFile.makeLockFile {d : Disk} {file : Path} (h : d.HasLockFile file) :
    Host.makeLockFile d file = .ok d := by
  obtain ⟨place, contents, hplace, hfile⟩ := h.file
  unfold Host.makeLockFile
  rw [makeFolders_of_leadsToFolder h.folder, Attempt.ok_bind, entry?, hplace]
  dsimp only
  rw [hfile]
  rfl

/-! ### Files that are written anew -/

section

variable {d d' : Disk} {place : List String} {contents : Bytes}

/-- Names along which one comes to a file lead to it when it has other contents. -/
theorem ChangedAt.advance_file (h : ChangedAt place d d')
    (hfile : d'.at? place = some (.file contents)) {names : List String} :
    ∀ {way : List String}, d.advance way names = .arrived place →
      d'.advance way names = .arrived place := by
  induction names with
  | nil => exact fun harrived => harrived
  | cons name names ih =>
      intro way harrived
      obtain ⟨inner, hat, hthere⟩ := exists_of_off (P := fun _ => False)
        (show (d.advance way (name :: names)).Off _ by rw [harrived]; exact id)
      obtain ⟨-, inner', hat'⟩ := h.exists_folder ⟨inner, hat⟩
      by_cases hup : name = ".."
      · subst hup
        rw [advance_up hat] at harrived
        rw [advance_up hat', ih harrived]
      · obtain ⟨e, he⟩ := hthere.resolve_left hup
        have hplain : ∀ target, e ≠ .link target := by
          rintro target rfl
          rw [advance_link hat hup he] at harrived
          cases harrived
        have hplain' := h.ne_link (w := way ++ [name]) fun target hlink =>
          hplain target (Option.some.inj (he.symm.trans hlink))
        rw [advance_into hat hup he hplain] at harrived
        obtain ⟨e', he'⟩ : ∃ e', d'.at? (way ++ [name]) = some e' := by
          by_cases hplace : way ++ [name] = place
          · exact ⟨_, hplace ▸ hfile⟩
          · obtain ⟨e', he', -⟩ := keptOff_of_rel h.alike (way ++ [name]) e hplace he
            exact ⟨e', he'⟩
        rw [advance_into hat' hup he' fun target hlink => hplain' target (hlink ▸ he'), ih harrived]

/-- So does a path. -/
theorem ChangedAt.follow_file (h : ChangedAt place d d')
    (hfile : d'.at? place = some (.file contents)) {fuel : Nat} :
    ∀ {way names : List String}, d.follow fuel way names = .ok place →
      d'.follow fuel way names = .ok place := by
  induction fuel with
  | zero => intro way names hfollow; cases hfollow
  | succ fuel ih =>
      intro way names hfollow
      rw [follow] at hfollow ⊢
      cases hadvance : d.advance way names with
      | arrived stop =>
          rw [hadvance] at hfollow
          cases hfollow
          rw [h.advance_file hfile hadvance]
      | link folder target rest =>
          rw [hadvance] at hfollow
          rw [h.advance_eq (by rw [hadvance]; trivial), hadvance]
          exact ih hfollow
      | failed f =>
          rw [hadvance] at hfollow
          cases hfollow

/-- A lock file is still there when some file has been written, be it that file. -/
theorem HasLockFile.of_changedAt {file : Path} (h : d.HasLockFile file)
    (hchanged : ChangedAt place d d') (hfile : d'.at? place = some (.file contents)) :
    d'.HasLockFile file := by
  obtain ⟨⟨folder, inner, hfolder, hinner⟩, lock, held, hlock, hheld⟩ := h
  obtain ⟨hne, inner', hinner'⟩ := hchanged.exists_folder ⟨inner, hinner⟩
  refine ⟨⟨folder, inner', hchanged.locate hfolder hne, hinner'⟩, ?_⟩
  by_cases hsame : lock = place
  · subst hsame
    exact ⟨lock, contents, hchanged.follow_file hfile hlock, hfile⟩
  · obtain ⟨e, he, halike⟩ := keptOff_of_rel hchanged.alike lock _ hsame hheld
    cases halike
    exact ⟨lock, held, hchanged.locate hlock hsame, he⟩

end

/-! ### Files that are not there -/

/-- There is no file in an empty folder. -/
theorem read?_concat_empty {d : Disk} {names folder : List String}
    (h : d.locate names = .ok folder) (hempty : d.at? folder = some (.folder [])) (name : String) :
    d.read? (names ++ [name]) = none := by
  by_cases hname : name = ".."
  · -- the path goes up again, to a folder
    subst hname
    obtain ⟨left, hgo⟩ := exists_follow_append h
    have hup : d.locate (names ++ [".."]) = .ok folder.dropLast := by
      rw [locate, hgo, follow, advance, hempty]
      rfl
    obtain ⟨outer, houter⟩ := exists_folder_dropLast hempty
    rw [read?, entry?, hup]
    dsimp only
    rw [houter]
  · have hmissing := locate_concat h hempty hname (by simp)
    exact read?_of_locate_error hmissing

/-- A file that is not there is not there once its folder is made, if the path to the folder does not
go up from a missing one. -/
theorem read?_makeFolders {d made : Disk} {file : Path} (hread : d.read? file.parts = none)
    (hway : ".." ∉ file.parent.parts ∨ d.LeadsToFolder file.parent.parts)
    (hmade : d.makeFolders file.parent.parts = .ok made) : made.read? file.parts = none := by
  rcases hway with hup | hleads
  · rcases makeFoldersFrom_eq_or_empty hup hmade with rfl | ⟨folder, hfolder, hempty⟩
    · exact hread
    · by_cases hparts : file.parts = []
      · rw [hparts]
        rfl
      · rw [← Path.parts_eq hparts]
        exact read?_concat_empty hfolder hempty file.name
  · rw [makeFolders_of_leadsToFolder hleads] at hmade
    cases hmade
    exact hread

end Disk

namespace Project

/-! ### What asking for the lock leaves as it was -/

/-- Asking for the lock does nothing to the disk, or it makes the lock file. -/
theorem seen_eq_or_made (p : Project) (h : Host) :
    p.seen h = h.disk ∨ Host.makeLockFile h.disk (lockFile p.indexFile) = .ok (p.seen h) := by
  unfold seen Host.acquire
  dsimp only
  split
  · exact .inl rfl
  · split
    · exact .inl rfl
    · next disk hdisk =>
      right
      rw [hdisk]
      split <;> rfl

/-- **No index comes about by asking for the lock,** unless its file is the file of the lock. -/
theorem read?_index_seen {p : Project} {h : Host}
    (hread : h.disk.read? p.indexFile.parts = none)
    (hway : ".." ∉ p.indexFile.parent.parts ∨ h.disk.LeadsToFolder p.indexFile.parent.parts)
    (hapart : (p.seen h).locate p.indexFile.parts ≠
      (p.seen h).locate (lockFile p.indexFile).parts) :
    (p.seen h).read? p.indexFile.parts = none := by
  rcases p.seen_eq_or_made h with hsame | hlock
  · rw [hsame]
    exact hread
  · obtain ⟨made, hmade, place, contents, hplace, -, hwritten⟩ := Disk.cases_of_makeLockFile hlock
    rw [lockFile, Path.parent_withSuffix] at hmade
    have hnone := Disk.read?_makeFolders hread hway hmade
    rcases hwritten with hmade' | ⟨hchanged, hfree⟩
    · rw [hmade']
      exact hnone
    · rw [hplace] at hapart
      refine (hchanged.read?_eq (fun hthere => ?_) hapart).trans hnone
      obtain ⟨e, he⟩ := Disk.exists_at?_of_locate hthere
      rw [hfree] at he
      cases he

/-- A writer that does not get a lock leaves the locks as they are. -/
theorem locks_acquire_or (h : Host) (who : Nat) (file : Path) :
    (h.acquire who file).1.locks = h.locks ∨ (h.acquire who file).2 = .ok () := by
  unfold Host.acquire
  dsimp only
  split
  · exact .inl rfl
  · split
    · exact .inl rfl
    · split
      · exact .inl rfl
      · exact .inr rfl

/-- **After an operation every lock is as it was before.** -/
theorem lockOf_guarded {α : Type} (p : Project) (h : Host)
    (body : Disk → Project × Disk × Except Fault α) (file : Path) :
    (p.guarded h body).host.lockOf file = h.lockOf file := by
  cases hlock : (h.acquire p.writer (lockFile p.indexFile)).2 with
  | error f =>
      have hlocks := (locks_acquire_or h p.writer (lockFile p.indexFile)).resolve_right
        (by rw [hlock]; exact nofun)
      have hhost : (p.guarded h body).host = (h.acquire p.writer (lockFile p.indexFile)).1 := by
        unfold guarded
        dsimp only
        split
        · next h' f' hacq => rw [hacq]
        · next h' hacq =>
          rw [hacq] at hlock
          cases hlock
      rw [hhost, Host.lockOf, hlocks, Host.lockOf]
  | ok _ =>
      obtain ⟨hfree, hmade⟩ := Host.of_acquire hlock
      have hfreed : (⟨true, p.writer :: (h.lockOf (lockFile p.indexFile)).holders⟩ :
          Lock Nat).release p.writer = h.lockOf (lockFile p.indexFile) := by
        have htaken := hfree.notTaken
        generalize h.lockOf (lockFile p.indexFile) = l at htaken
        cases l
        cases htaken
        simp [Lock.release, Lock.holds]
      unfold guarded
      dsimp only
      rw [hfree.acquire_eq hmade]
      by_cases hfile : file = lockFile p.indexFile
      · simp [Host.release, Host.lockOf, Roster.get?_put, hfile] at hfreed ⊢
        exact hfreed
      · simp [Host.release, Host.lockOf, Roster.get?_put, hfile]

/-- Once a project has had the lock, and the file of the lock is there, the lock can be taken by
everyone who does not hold it. -/
theorem acquire_of_hasLockFile {p : Project} {h h' : Host}
    (hlock : (h.acquire p.writer (lockFile p.indexFile)).2 = .ok ())
    (hthere : h'.disk.HasLockFile (lockFile p.indexFile))
    (hlocks : ∀ file, h'.lockOf file = h.lockOf file) {who : Nat}
    (hwho : (h.lockOf (lockFile p.indexFile)).holds who = false) :
    (h'.acquire who (lockFile p.indexFile)).2 = .ok () := by
  obtain ⟨hfree, -⟩ := Host.of_acquire hlock
  have hfree' : h'.Free who (lockFile p.indexFile) := by
    refine ⟨?_, ?_⟩
    · rw [hlocks]
      exact hwho
    · rw [hlocks]
      exact hfree.notTaken
  rw [hfree'.acquire_eq hthere.makeLockFile]

/-- What an operation that fails leaves of a host, apart from a place that it may have spoilt. -/
structure Spared (p : Project) (spoilt : Option (List String)) (h h' : Host) : Prop where
  /-- Every file on the disk is what it was, a stored index among them. -/
  files : ∀ names contents, h.disk.read? names = some contents →
    (∀ place ∈ spoilt, (p.seen h).locate names ≠ .ok place) → h'.disk.read? names = some contents
  /-- If no index was stored there is none afterwards. This takes a path to it that does not go up
  from a missing folder, and a file that is not the file of the lock. -/
  noIndex : h.disk.read? p.indexFile.parts = none →
    ".." ∉ p.indexFile.parent.parts ∨ h.disk.LeadsToFolder p.indexFile.parent.parts →
    (p.seen h).locate p.indexFile.parts ≠ (p.seen h).locate (lockFile p.indexFile).parts →
    (∀ place ∈ spoilt, h'.disk.locate p.indexFile.parts ≠ .ok place) →
    h'.disk.read? p.indexFile.parts = none
  /-- Every lock is held by those who held it. -/
  locks : ∀ file, h'.lockOf file = h.lockOf file

/-- An operation that only asks for the lock spares the host. -/
theorem spared_of_seen {p : Project} {h h' : Host} (hdisk : h'.disk = p.seen h)
    (hlocks : ∀ file, h'.lockOf file = h.lockOf file) : p.Spared none h h' where
  files names contents hread _ := by
    rw [hdisk]
    exact read?_seen hread
  noIndex hread hway hapart _ := by
    rw [hdisk]
    exact read?_index_seen hread hway hapart
  locks := hlocks

/-- So does one that has then written a file, apart from the place of that file. -/
theorem spared_of_changedAt {p : Project} {h h' : Host} {place : List String}
    (hchanged : Disk.ChangedAt place (p.seen h) h'.disk)
    (hlocks : ∀ file, h'.lockOf file = h.lockOf file) : p.Spared (some place) h h' where
  files names contents hread hne := by
    have hseen := read?_seen (p := p) hread
    have hplace := hne place rfl
    obtain ⟨stop, hstop, -⟩ := Disk.exists_way_of_read? hseen
    have hstop' := hchanged.locate hstop fun heq => hplace (heq ▸ hstop)
    rw [hchanged.read?_eq hplace (by rw [hstop', ← hstop]; exact hplace), hseen]
  noIndex hread hway hapart hne := by
    have hseen := read?_index_seen hread hway hapart
    rw [hchanged.read?_eq (fun hlocate => ?_) (hne place rfl), hseen]
    -- what stands in the place of a change and can be reached is a file
    obtain ⟨e, he⟩ := Disk.exists_at?_of_locate hlocate
    have hend := hchanged.isEnd
    rw [he] at hend
    cases hend
    rw [Disk.read?, Disk.entry?, hlocate] at hseen
    dsimp only at hseen
    rw [he] at hseen
    cases hseen
  locks := hlocks

end Project

namespace Session

variable (read : FileReader)

/-- What the answer to an event comes to: a fault, or whether something was done. -/
def answer (s : Session) : Event → Except Project.Fault Bool
  | .indexAll now incremental stopAt =>
    (s.project.indexAll s.host read now incremental stopAt).answer.map fun _ => true
  | .indexOne now path => (s.project.indexOne s.host read now path).answer.map Option.isSome
  | .removeFile now path => (s.project.removeFile s.host now path).answer
  | .changeScope now changes => (s.project.changeScope s.host now changes).answer.map fun _ => true
  | .clear now => (s.project.clear s.host now).answer.map fun _ => true
  | .outside _ => .ok true

variable {read} {s : Session} {event : Event}

/-- The answer of an operation that gets the lock is what it comes to on the disk that it sees. -/
theorem answer_of_isGranted {α : Type} (hgranted : s.isGranted = true)
    (body : Disk → Project × Disk × Except Project.Fault α) :
    (s.project.guarded s.host body).answer = (body s.seen).2.2 :=
  (Project.guarded_of_granted body (acquire_of_isGranted hgranted)).2.2

/-- **An operation that fails stores nothing.** -/
theorem change?_of_answer (h : s.answer read event ≠ .ok true) : s.change? read event = none := by
  rw [change?]
  split
  · next hgranted =>
    cases event with
    | outside host => rfl
    | indexAll now incremental stopAt =>
        rw [answer, Project.indexAll, answer_of_isGranted hgranted] at h
        rw [Event.change?]
        cases hscanner : s.project.scanner s.seen with
        | error f => rfl
        | ok scanner =>
            rw [hscanner] at h
            exact absurd rfl h
    | indexOne now path =>
        rw [answer, Project.indexOne, answer_of_isGranted hgranted] at h
        rw [Event.change?]
        cases hentry : s.project.entryFor? read s.seen path with
        | none => rfl
        | some found =>
            rw [hentry] at h
            exact absurd rfl h
    | removeFile now path =>
        rw [answer, Project.removeFile, answer_of_isGranted hgranted] at h
        rw [Event.change?]
        cases hid : s.project.idOf s.seen path with
        | error f => rfl
        | ok id =>
            rw [hid] at h
            dsimp only at h ⊢
            by_cases hthere : s.project.index.files.contains id = true
            · rw [if_pos hthere] at h
              exact absurd rfl h
            · rw [if_neg hthere]
    | changeScope now changes =>
        rw [answer, Project.changeScope, answer_of_isGranted hgranted] at h
        rw [Event.change?]
        cases hscope : s.project.index.scope.setAll changes with
        | error field => rfl
        | ok scope =>
            cases hgiven : s.project.settings.scope.setAll changes with
            | error field => rfl
            | ok given =>
                rw [hscope, hgiven] at h
                exact absurd rfl h
    | clear now =>
        rw [answer, Project.clear, answer_of_isGranted hgranted] at h
        exact absurd rfl h
  · rfl

/-- A change from outside is no operation that could fail. -/
theorem isOwn_of_answer (h : s.answer read event ≠ .ok true) : event.IsOwn := by
  cases event with
  | outside host => exact absurd rfl h
  | _ => trivial

/-- An operation that fails leaves the session idle. -/
theorem idle_of_answer (h : s.answer read event ≠ .ok true) : Idle s (s.after read event) := by
  have hcases := s.after_cases read (isOwn_of_answer h)
  rw [change?_of_answer h] at hcases
  exact hcases

/-- After an operation of the project every lock is as it was before. -/
theorem lockOf_after (hown : event.IsOwn) (file : Path) :
    (s.after read event).host.lockOf file = s.host.lockOf file := by
  cases event with
  | outside host => exact hown.elim
  | indexAll now incremental stopAt => exact s.project.lockOf_guarded s.host _ file
  | indexOne now path => exact s.project.lockOf_guarded s.host _ file
  | removeFile now path => exact s.project.lockOf_guarded s.host _ file
  | changeScope now changes => exact s.project.lockOf_guarded s.host _ file
  | clear now => exact s.project.lockOf_guarded s.host _ file

/-- An operation that does not get the lock says so. -/
theorem exists_lockFault (hown : event.IsOwn) (hrefused : s.isGranted = false) :
    ∃ f, s.answer read event = .error (.lock f (lockFile s.project.indexFile)) := by
  obtain ⟨f, hlock⟩ : ∃ f,
      (s.host.acquire s.project.writer (lockFile s.project.indexFile)).2 = .error f := by
    unfold isGranted at hrefused
    cases hlock : (s.host.acquire s.project.writer (lockFile s.project.indexFile)).2 with
    | error f => exact ⟨f, rfl⟩
    | ok _ =>
        rw [hlock] at hrefused
        cases hrefused
  have hanswer {α : Type} (body : Disk → Project × Disk × Except Project.Fault α) :
      (s.project.guarded s.host body).answer = .error (.lock f (lockFile s.project.indexFile)) :=
    (Project.guarded_of_refused body hlock).2.2
  refine ⟨f, ?_⟩
  cases event with
  | outside host => exact hown.elim
  | indexAll now incremental stopAt => rw [answer, Project.indexAll, hanswer]; rfl
  | indexOne now path => rw [answer, Project.indexOne, hanswer]; rfl
  | removeFile now path => rw [answer, Project.removeFile, hanswer]
  | changeScope now changes => rw [answer, Project.changeScope, hanswer]; rfl
  | clear now => rw [answer, Project.clear, hanswer]; rfl

end Session

end Concordance
