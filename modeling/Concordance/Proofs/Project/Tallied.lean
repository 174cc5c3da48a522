import Concordance.Proofs.Disk.Contents
import Concordance.Proofs.Project.Failed
import Concordance.Proofs.Project.Reopen
import Concordance.Proofs.Record.Statistics

/-!
# Counts never drift

An index keeps counts beside its files. They are the counts over those files in every state that a
project comes to, whatever is done with it and whatever happens to its disk (`tallied_run`).

A project that is opened anew takes its counts from the disk. They are right there too, for what a
project writes is an index with its own counts. So the invariant, `Session.Accounted`, is about all
files of the disk: none of them is an index with other counts. It holds where a save fails, and where
links lead a path to another place, since a change of the disk brings nothing but what it writes.
-/

namespace Concordance

namespace ProjectIndex

/-- The counts are those over the files. -/
def Tallied (index : ProjectIndex) : Prop :=
  index.statistics = .ofEntries index.files.values

/-- The counts are those over the files, and a clock can show the times. -/
structure Sound (index : ProjectIndex) : Prop where
  tallied : index.Tallied
  indexed : index.indexed.Representable
  modified : ∀ id e, index.files.get? id = some e → e.modified.Representable

/-- An empty index is sound. -/
theorem sound_fresh (project : String) : (fresh project).Sound :=
  ⟨rfl, .real ⟨false, 0, 0⟩, fun id e he => by cases he⟩

/-- The scope and the name of an index play no part in it. -/
theorem Sound.renamed {index : ProjectIndex} (h : index.Sound) (scope : Scope) (project : String) :
    { index with scope, project }.Sound :=
  ⟨h.tallied, h.indexed, h.modified⟩

end ProjectIndex

/-- Every index that is stored in a file of a disk is sound. -/
def Disk.Sound (d : Disk) : Prop :=
  ∀ contents, d.Holds contents → ∀ index, ProjectIndex.ofStored? contents = some index → index.Sound

namespace Disk

variable {d : Disk}

/-- What is loaded from a sound disk is sound. -/
theorem Sound.load (hd : d.Sound) (file : Path) (project : String) :
    (ProjectIndex.load d file project).Sound := by
  unfold ProjectIndex.load ProjectIndex.ofStored
  split
  · next contents hread =>
    split
    · next index hindex =>
      exact (hd contents (holds_of_read? hread) index hindex).renamed index.scope project
    · exact ProjectIndex.sound_fresh project
  · exact ProjectIndex.sound_fresh project

/-- Asking for the lock brings an empty file at most, which is no index. -/
theorem Sound.seen {p : Project} {h : Host} (hd : h.disk.Sound) : (p.seen h).Sound := by
  intro contents hc index hindex
  rcases p.seen_eq_or_made h with hsame | hlock
  · rw [hsame] at hc
    exact hd contents hc index hindex
  · rcases hc.of_makeLockFile hlock with hold | rfl
    · exact hd contents hold index hindex
    · have hnone : ProjectIndex.ofStored? [] = none := by decide +kernel
      rw [hnone] at hindex
      cases hindex

/-- **Storing a sound index** keeps a disk sound, whether it succeeds or not. -/
theorem Sound.save (hd : d.Sound) {p : Project} (hkept : p.Kept) (htallied : p.index.Tallied)
    (file : Path) : (p.index.save d file).1.Sound := by
  intro contents hc index hindex
  rcases hc.of_save with hold | rfl
  · exact hd contents hold index hindex
  · rw [hkept.ofStored?] at hindex
    cases hindex
    exact ⟨htallied, hkept.indexed, hkept.modified⟩

end Disk

/-- What is opened on a sound disk is sound. -/
theorem Project.sound_of_ofDisk {d : Disk} {root : List String} {given : Option Settings}
    {file : Option Path} {writer : Nat} {p : Project}
    (hopen : ofDisk d root given file writer = .ok p) (hd : d.Sound) : p.index.Sound := by
  rw [(index_of_ofDisk hopen).2]
  exact (hd.load _ _).renamed p.settings.scope _

namespace Session

variable {read : FileReader} {s : Session}

/-! ### The project itself -/

/-- What is stored is counted first. -/
theorem tallied_persisted (q : Project) (now : Number) : (q.persisted now).index.Tallied :=
  rfl

/-- **One event**, also a change from outside. -/
theorem tallied_after (hs : s.project.index.Tallied) (event : Event) :
    (s.after read event).project.index.Tallied := by
  rcases s.after_or read event with ⟨host, rfl⟩ | hidle | ⟨q, now, -, hstored⟩
  · exact hs
  · rw [hidle.project]
    exact hs
  · rw [hstored.project]
    exact tallied_persisted q now

/-- **Any sequence of events.** -/
theorem tallied_run (hs : s.project.index.Tallied) (events : List Event) :
    (s.run read events).project.index.Tallied := by
  induction events generalizing s with
  | nil => exact hs
  | cons event rest ih => exact ih (tallied_after hs event)

/-! ### The project and its disk -/

/-- **Every account is right**: that of the project and those on its disk. -/
structure Accounted (s : Session) : Prop where
  kept : s.project.Kept
  tallied : s.project.index.Tallied
  disk : s.host.disk.Sound

/-- The start, and every reopening. -/
theorem accounted_of_ofDisk {root : List String} {given : Option Settings} {file : Option Path}
    {writer : Nat} (hopen : Project.ofDisk s.host.disk root given file writer = .ok s.project)
    (hdisk : s.host.disk.Sound) : s.Accounted := by
  obtain ⟨htallied, hindexed, hmodified⟩ := Project.sound_of_ofDisk hopen hdisk
  exact ⟨Project.kept_of_ofDisk hopen hindexed hmodified, htallied, hdisk⟩

/-- An operation of the project. -/
theorem Accounted.after (hread : read.Dates) (hs : s.Accounted) {event : Event}
    (htimely : event.IsTimely) : (s.after read event).Accounted := by
  have hseen : s.seen.Sound := hs.disk.seen
  have hcases := s.after_cases read htimely.hasTime.isOwn
  cases hchange : s.change? read event with
  | none =>
      rw [hchange] at hcases
      obtain ⟨hproject, hdisk⟩ : Idle s (s.after read event) := hcases
      exact ⟨hproject ▸ hs.kept, hproject ▸ hs.tallied, hdisk ▸ hseen⟩
  | some change =>
      obtain ⟨q, now⟩ := change
      rw [hchange] at hcases
      obtain ⟨hproject, hdisk⟩ : Stored s (s.after read event) q now := hcases
      obtain ⟨hq, -, hnow, -⟩ := kept_of_change? hread hs.kept htimely.hasTime hchange
      have hkept := kept_persisted hq hnow
      have hsaved := hseen.save hkept (tallied_persisted q now) q.indexFile
      exact ⟨hproject ▸ hkept, hproject ▸ tallied_persisted q now, hdisk ▸ hsaved⟩

/-- Reopening keeps a session accounted for. -/
theorem Accounted.reopen (hs : s.Accounted) (writer : Nat) : (s.reopen writer).Accounted := by
  unfold Session.reopen
  split
  · next project hopen => exact accounted_of_ofDisk hopen hs.disk
  · exact hs

/-- A turn that keeps every account right: an operation at a time that a clock can show, a reopening,
or a change from outside that leaves no index with other counts. -/
def Turn.IsSound (turn : Turn) : Prop :=
  turn.IsTimely ∨ ∃ host, turn = .own (.outside host) ∧ host.disk.Sound

/-- **One turn** keeps a session accounted for. -/
theorem Accounted.turn (hread : read.Dates) (hs : s.Accounted) {turn : Turn}
    (hturn : turn.IsSound) : (s.turn read turn).Accounted := by
  rcases hturn with htimely | ⟨host, rfl, hhost⟩
  · cases turn with
    | own event => exact hs.after hread htimely
    | reopen writer => exact hs.reopen writer
  · exact ⟨hs.kept, hs.tallied, hhost⟩

/-- **A whole session**, with reopening and whether saves succeed or not. -/
theorem Accounted.turns (hread : read.Dates) (hs : s.Accounted) {list : List Turn}
    (hlist : ∀ turn ∈ list, turn.IsSound) : (s.turns read list).Accounted := by
  induction list generalizing s with
  | nil => exact hs
  | cons first rest ih =>
      obtain ⟨hfirst, hrest⟩ := List.forall_mem_cons.mp hlist
      exact ih (hs.turn hread hfirst) hrest

/-- **Counts never drift.** From an empty index, through any events, the counts of a project are those
over its files. So they are with reopening in between, and on the disk as well. And the counts over
files are exact, whatever the files, and do not depend on their order. -/
theorem counts_never_drift (read : FileReader) :
    (∀ start : Session, start.project.index.files = .empty →
      start.project.index.statistics = {} → ∀ events : List Event,
      (start.run read events).project.index.statistics =
        .ofEntries (start.run read events).project.index.files.values) ∧
    (read.Dates → ∀ (start : Session) (root : List String) (given : Option Settings)
      (file : Option Path) (writer : Nat),
      Project.ofDisk start.host.disk root given file writer = .ok start.project →
      start.host.disk.Sound → ∀ list : List Turn, (∀ turn ∈ list, turn.IsSound) →
      (start.turns read list).project.index.Tallied ∧ (start.turns read list).host.disk.Sound) ∧
    ∀ files : Roster String FileEntry,
      (Statistics.ofEntries files.values).Exact files ∧
      ∀ other : Roster String FileEntry, other.entries.Perm files.entries →
        (Statistics.ofEntries other.values).SameCounts (.ofEntries files.values) := by
  refine ⟨fun start hfiles hcounts events => ?_, ?_, fun files => ⟨?_, fun other hperm => ?_⟩⟩
  · have hstart : start.project.index.Tallied := by
      rw [ProjectIndex.Tallied, hfiles, hcounts]
      rfl
    exact tallied_run hstart events
  · intro hread start root given file writer hopen hdisk list hlist
    have hs := (accounted_of_ofDisk hopen hdisk).turns hread hlist
    exact ⟨hs.tallied, hs.disk⟩
  · exact Statistics.exact_ofEntries files
  · exact Statistics.sameCounts_of_perm (hperm.map Prod.snd)

section Runs

/-- The one file of the disk is no index. -/
theorem openedOwn_sound : openedOwn.host.disk.Sound := by
  intro contents hc index hindex
  have hcontents : contents = [120] := by
    obtain ⟨way, hway⟩ := hc
    change Entry.at? way [("p", .folder [("a.py", .file [120])])] = _ at hway
    cases way with
    | nil => cases hway
    | cons first way =>
        rw [Entry.at?, Entry.lookup_cons_ite] at hway
        by_cases hfirst : first = "p"
        · rw [if_pos hfirst] at hway
          cases way with
          | nil => cases hway
          | cons second way =>
              dsimp only at hway
              rw [Entry.at?, Entry.lookup_cons_ite] at hway
              by_cases hsecond : second = "a.py"
              · rw [if_pos hsecond] at hway
                cases way with
                | nil =>
                    cases hway
                    rfl
                | cons third way => cases hway
              · rw [if_neg hsecond] at hway
                cases hway
        · rw [if_neg hfirst] at hway
          cases hway
  have hnone : ProjectIndex.ofStored? [120] = none := by decide +kernel
  rw [hcontents, hnone] at hindex
  cases hindex

/-- The module is counted when it is indexed, and it still is when the project was opened anew. -/
theorem counts_never_drift_naming :
    (openedOwn.run (parseFile bareGrammars)
        [.indexOne clock (.ofString "a.py")]).project.index.statistics.files = 1 ∧
      (openedOwn.turns (parseFile bareGrammars) namingTurns).project.index.Tallied ∧
      (openedOwn.turns (parseFile bareGrammars) namingTurns).host.disk.Sound := by
  obtain ⟨hrun, hturns, -⟩ := counts_never_drift (parseFile bareGrammars)
  refine ⟨?_, ?_⟩
  · rw [hrun openedOwn rfl rfl]
    decide +kernel
  · exact hturns (parseFile_dates bareGrammars) openedOwn ["p"] none none 0 openedOwn_opened
      openedOwn_sound namingTurns fun turn hturn => .inl (namingTurns_timely turn hturn)

end Runs

end Session

end Concordance
