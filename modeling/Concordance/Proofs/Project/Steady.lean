import Concordance.Proofs.Project.Visit
import Concordance.Proofs.Scan.Whole

/-!
# A run and its own traces

A run leaves traces on the disk: the lock file, the index, and for a moment the draft of the index. The
next run scans a disk on which these have changed. It finds the same files as before
(`Scanner.scan_of_alikeOff`), unless one of those that the first or the second scan finds is such a
trace. That is ruled out if the index is kept outside the project, or below a folder that scans pass by
(`Session.Shields.omits`).

So a run settles the index (`Session.indexAll_settled`): the run after it has nothing to do.
-/

namespace Concordance

/-! ### Disks that differ in some places -/

namespace Disk

variable {d d' : Disk} {places : List (List String)} {names : List String}

/-- A path leads to none of some places. -/
def Spares (d : Disk) (places : List (List String)) (names : List String) : Prop :=
  ∀ place ∈ places, d.locate names ≠ .ok place

/-- Outside of some places two disks are alike, and paths lead to the same ends. -/
structure AlikeOff (places : List (List String)) (d d' : Disk) : Prop where
  alike : ∀ w, w ∉ places → Option.Rel Entry.Alike (d.at? w) (d'.at? w)
  locate_iff : ∀ {names stop : List String}, stop ∉ places →
    (d.locate names = .ok stop ↔ d'.locate names = .ok stop)
  folder_iff : ∀ w, (∃ inner, d.at? w = some (.folder inner)) ↔
    ∃ inner, d'.at? w = some (.folder inner)

/-- A change leaves all but its places alike. -/
theorem Changed.alikeOff (h : Changed places d d') : AlikeOff places d d' :=
  ⟨fun _ hw => h.alike hw, h.locate_iff, fun _ => h.exists_folder_iff⟩

theorem AlikeOff.symm (h : AlikeOff places d d') : AlikeOff places d' d :=
  ⟨fun w hw => Entry.rel_alike_symm (h.alike w hw), fun hstop => (h.locate_iff hstop).symm,
    fun w => (h.folder_iff w).symm⟩

/-- A file that is read on a path which spares the places is read there on the other disk. -/
theorem AlikeOff.of_read? (h : AlikeOff places d d') (hd : d.Spares places names)
    {contents : Bytes} (hread : d.read? names = some contents) :
    d'.read? names = some contents ∧
      ∃ stop, d.locate names = .ok stop ∧ d'.locate names = .ok stop := by
  obtain ⟨stop, hstop, hfile⟩ := exists_way_of_read? hread
  have hout : stop ∉ places := fun hin => hd stop hin hstop
  have hstop' := (h.locate_iff hout).mp hstop
  have hfile' : d'.at? stop = some (.file contents) := by
    have hrel := Entry.rel_alike_symm (h.alike stop hout)
    rw [hfile] at hrel
    exact Entry.eq_file_of_rel hrel
  exact ⟨read?_of_locate hstop' hfile', stop, hstop, hstop'⟩

/-- A path that spares the places on both disks reads the same on both. -/
theorem AlikeOff.read?_eq (h : AlikeOff places d d') (hd : d.Spares places names)
    (hd' : d'.Spares places names) : d'.read? names = d.read? names := by
  apply Option.ext
  intro contents
  exact ⟨fun hread => (h.symm.of_read? hd' hread).1, fun hread => (h.of_read? hd hread).1⟩

end Disk

/-! ### Scans of such disks -/

namespace Scan

variable {s : Scanner} {d d' : Disk} {places : List (List String)} {way : List String}

/-- A file is judged alike on both disks, if its path spares the places. -/
theorem judge_of_alikeOff (h : Disk.AlikeOff places d d') (hd : d.Spares places (s.root ++ way))
    {f : Found} (hf : judge s d way = some f) : judge s d' way = some f := by
  obtain ⟨rfl, haccepts, hread, hid, hscope, hfits⟩ := judge_eq_some_iff.mp hf
  obtain ⟨hread', stop, hstop, hstop'⟩ := h.of_read? hd hread
  refine judge_eq_some_iff.mpr ⟨rfl, haccepts, hread', ?_, hscope, hfits⟩
  exact (Scanner.id?_eq_some_iff hstop').mpr ((Scanner.id?_eq_some_iff hstop).mp hid)

/-- A way whose path spares the places is met on both disks. -/
theorem mem_walk_of_alikeOff (h : Disk.AlikeOff places d d')
    (hup : ∀ place ∈ places, ".." ∉ place)
    (hlink : ∀ place ∈ places, ∀ target, d.at? place ≠ some (.link target))
    {root : List String} {entries entries' : List (String × Entry)}
    (hroot : d.at? root = some (.folder entries)) (hroot' : d'.at? root = some (.folder entries'))
    (hdistinct : Entry.Distinct (.folder entries)) (hdistinct' : Entry.Distinct (.folder entries'))
    {passesBy : String → Bool} (hway : way ∈ walk passesBy (.folder entries))
    (hd : d.Spares places (root ++ way)) : way ∈ walk passesBy (.folder entries') := by
  obtain ⟨⟨e, he, hleaf⟩, hpassed⟩ := (mem_walk_iff hdistinct).mp hway
  rw [← at?_root_append hroot] at he
  -- what stands in one of the places is no link, and a file there would be found there
  have hout : root ++ way ∉ places := by
    intro hin
    cases e with
    | folder inner => exact hleaf inner rfl
    | link target => exact hlink _ hin target he
    | file contents => exact hd _ hin (Disk.locate_of_at? (hup _ hin) (by simp) he)
  have hrel := h.alike _ hout
  rw [he] at hrel
  refine (mem_walk_iff hdistinct').mpr ⟨?_, hpassed⟩
  rw [← at?_root_append hroot']
  generalize d'.at? (root ++ way) = x at hrel
  cases hrel with
  | some halike =>
      refine ⟨_, rfl, fun inner heq => ?_⟩
      rw [heq] at halike
      cases halike with
      | folder inner' _ => exact hleaf inner' rfl

/-- So what a scan picks on one disk it picks on the other, if all that it finds spares the places. -/
theorem picks_of_alikeOff (h : Disk.AlikeOff places d d') (hup : ∀ place ∈ places, ".." ∉ place)
    (hlink : ∀ place ∈ places, ∀ target, d.at? place ≠ some (.link target))
    {entries entries' : List (String × Entry)} (hroot : d.at? s.root = some (.folder entries))
    (hroot' : d'.at? s.root = some (.folder entries'))
    (hdistinct : Entry.Distinct (.folder entries)) (hdistinct' : Entry.Distinct (.folder entries'))
    (hd : ∀ f ∈ s.scan d, d.Spares places (s.root ++ f.way)) :
    ∀ way ∈ walk s.excluded.contains (.folder entries), ∀ f, judge s d way = some f →
      way ∈ walk s.excluded.contains (.folder entries') ∧ judge s d' way = some f := by
  intro way hway f hf
  have hspares := hd f (by
    rw [Scanner.scan, hroot]
    exact List.mem_filterMap.mpr ⟨way, hway, hf⟩)
  rw [(judge_eq_some_iff.mp hf).1] at hspares
  exact ⟨mem_walk_of_alikeOff h hup hlink hroot hroot' hdistinct hdistinct' hway hspares,
    judge_of_alikeOff h hspares hf⟩

end Scan

/-- Two ways of picking from two lists, which pick the same from the same, where what is picked from
each of them stands in one order. -/
theorem Scan.filterMap_eq_of_before {ways ways' : List (List String)} (h : ways.Pairwise Before)
    (h' : ways'.Pairwise Before) {pick pick' : List String → Option Found}
    (hpick : ∀ w ∈ ways, ∀ f, pick w = some f → w ∈ ways' ∧ pick' w = some f)
    (hpick' : ∀ w ∈ ways', ∀ f, pick' w = some f → w ∈ ways ∧ pick w = some f) :
    ways.filterMap pick = ways'.filterMap pick' := by
  have hkept : ways.filter (fun w => (pick w).isSome) = ways'.filter fun w => (pick' w).isSome := by
    apply eq_of_pairwise_before (h.filter _) (h'.filter _)
    intro w
    rw [List.mem_filter, List.mem_filter, Option.isSome_iff_exists, Option.isSome_iff_exists]
    constructor
    · rintro ⟨hw, f, hf⟩
      obtain ⟨hw', hf'⟩ := hpick w hw f hf
      exact ⟨hw', f, hf'⟩
    · rintro ⟨hw', f, hf'⟩
      obtain ⟨hw, hf⟩ := hpick' w hw' f hf'
      exact ⟨hw, f, hf⟩
  have hsome : ∀ (pick : List String → Option Found) (ways : List (List String)),
      ways.filterMap pick = (ways.filter fun w => (pick w).isSome).filterMap pick := by
    intro pick ways
    rw [List.filterMap_filter]
    refine List.filterMap_congr fun w _ => ?_
    cases pick w <;> rfl
  rw [hsome pick, hsome pick', ← hkept]
  refine List.filterMap_congr fun w hw => ?_
  obtain ⟨hw, hpicked⟩ := List.mem_filter.mp hw
  obtain ⟨f, hf⟩ := Option.isSome_iff_exists.mp hpicked
  rw [hf, (hpick w hw f hf).2]

/-- **A scan finds the same files on both disks**, if what it finds on each of them spares the places
in which they differ. -/
theorem Scanner.scan_of_alikeOff {s : Scanner} {d d' : Disk} {places : List (List String)}
    (h : Disk.AlikeOff places d d') (hup : ∀ place ∈ places, ".." ∉ place)
    (hlink : ∀ place ∈ places, ∀ target, d.at? place ≠ some (.link target))
    (hlink' : ∀ place ∈ places, ∀ target, d'.at? place ≠ some (.link target))
    (hdistinct : d.Distinct) (hdistinct' : d'.Distinct)
    (hd : ∀ f ∈ s.scan d, d.Spares places (s.root ++ f.way))
    (hd' : ∀ f ∈ s.scan d', d'.Spares places (s.root ++ f.way)) : s.scan d' = s.scan d := by
  by_cases hfolder : ∃ entries, d.at? s.root = some (.folder entries)
  · obtain ⟨entries', hroot'⟩ := (h.folder_iff _).mp hfolder
    obtain ⟨entries, hroot⟩ := hfolder
    have hinside : Entry.Distinct (.folder entries) := Entry.Distinct.at? hdistinct hroot
    have hinside' : Entry.Distinct (.folder entries') := Entry.Distinct.at? hdistinct' hroot'
    have hpicks := Scan.picks_of_alikeOff h hup hlink hroot hroot' hinside hinside' hd
    have hpicks' := Scan.picks_of_alikeOff h.symm hup hlink' hroot' hroot hinside' hinside hd'
    unfold scan
    rw [hroot, hroot']
    exact (Scan.filterMap_eq_of_before (Scan.pairwise_walk hinside) (Scan.pairwise_walk hinside')
      hpicks hpicks').symm
  · -- nothing is found where no folder stands
    have hnothing : ∀ {d : Disk}, (¬ ∃ entries, d.at? s.root = some (.folder entries)) →
        s.scan d = [] := by
      intro d hnone
      refine List.eq_nil_iff_forall_not_mem.mpr fun f hf => hnone ?_
      obtain ⟨e, he, hmet⟩ := (Scan.accepted_of_mem hf).met
      cases e with
      | folder entries => exact ⟨entries, he⟩
      | file contents => cases hmet
      | link target => cases hmet
    rw [hnothing hfolder, hnothing fun hfolder' => hfolder ((h.folder_iff _).mpr hfolder')]

/-! ### A run after a run -/

/-- The same scanner is made where the same rules are read. -/
theorem Project.scanner_congr {p q : Project} {d d' : Disk} (hsame : SamePlace p q)
    (hscope : q.index.scope = p.index.scope)
    (hrules : p.settings.indexing.respectsIgnoreFile = true →
      d'.read? (p.root ++ [".gitignore"]) = d.read? (p.root ++ [".gitignore"])) :
    q.scanner d' = p.scanner d := by
  unfold scanner IgnoreRules.load
  rw [hsame.root, hsame.indexing, hscope]
  dsimp only
  by_cases hrespects : p.settings.indexing.respectsIgnoreFile = true
  · rw [if_pos hrespects, if_pos hrespects, hrules hrespects]
  · rw [if_neg hrespects, if_neg hrespects]

namespace Session

variable {read : FileReader} {start s : Session} {folder : List String}

/-- Nothing that a run finds is a trace of the index: the index itself, its draft or its lock file. -/
def Omits (s : Session) (folder : List String) : Prop :=
  ∀ scanner, s.project.scanner s.seen = .ok scanner → ∀ f ∈ scanner.scan s.seen,
    s.seen.Spares (Disk.placesOf s.project.indexFile folder) (s.project.root ++ f.way)

/-- The ignore file, where it is respected, is no trace of the index. -/
def RulesApart (s : Session) (folder : List String) : Prop :=
  s.project.settings.indexing.respectsIgnoreFile = true →
    s.seen.Spares (Disk.placesOf s.project.indexFile folder) (s.project.root ++ [".gitignore"])

/-- The folder of the index is not in the project, or it is below a folder that scans pass by. -/
def Shields (s : Session) (folder : List String) : Prop :=
  ∀ way, folder = s.project.root ++ way →
    ∃ n ∈ way, n ∈ Settings.excludedFolders ++ [s.project.settings.indexing.folder]

/-- The traces of an index that is kept under names have names. -/
theorem names_of_mem_placesOf {file : Path} (hnames : ∀ n ∈ folder ++ [file.name], Path.IsName n)
    {place : List String} (hplace : place ∈ Disk.placesOf file folder) :
    place.dropLast = folder ∧ place ≠ [] ∧ ∀ n ∈ place, Path.IsName n := by
  have hname : Path.IsName file.name := hnames _ (by simp)
  have hfolder : ∀ n ∈ folder, Path.IsName n := fun n hn => hnames n (List.mem_append_left _ hn)
  have hconcat : ∀ {name : String}, Path.IsName name → (folder ++ [name]).dropLast = folder ∧
      folder ++ [name] ≠ [] ∧ ∀ n ∈ folder ++ [name], Path.IsName n := fun hname =>
    ⟨List.dropLast_concat, by simp, Disk.forall_mem_concat hfolder hname⟩
  rcases Disk.mem_placesOf.mp hplace with rfl | rfl | rfl
  · exact hconcat hname
  · exact hconcat (ProjectIndex.isName_draftOf hname)
  · exact hconcat (Path.isName_withSuffix hname.2.2.2 (by decide) (by decide))

/-- **A shielded index is not found**, whatever is on the disk. -/
theorem Shields.omits (h : s.Shields folder)
    (hnames : ∀ n ∈ folder ++ [s.project.indexFile.name], Path.IsName n) : s.Omits folder := by
  intro scanner hscanner f hf place hplace hlocate
  obtain ⟨hfolder, hne, hplaced⟩ := names_of_mem_placesOf hnames hplace
  have haccepted := Scan.accepted_of_mem hf
  have hroot := Project.root_of_scanner hscanner
  obtain ⟨stop, hstop, hfile⟩ := Disk.exists_way_of_read? haccepted.read
  rw [← hroot] at hlocate
  obtain rfl : stop = place := Except.ok.inj (hstop.symm.trans hlocate)
  obtain ⟨parts, rfl, hid⟩ := (Scanner.id?_eq_some_iff hstop).mp haccepted.id
  -- the way to the trace goes through a folder that is passed by, so its id is ignored
  have hparts : parts ≠ [] := by
    rintro rfl
    obtain ⟨e, he, hmet⟩ := haccepted.met
    rw [List.append_nil, he] at hfile
    cases hfile
    cases hmet
  rw [List.dropLast_append_of_ne_nil hparts, hroot] at hfolder
  obtain ⟨n, hn, hexcluded⟩ := h _ hfolder.symm
  have hpassed : parts.dropLast.any scanner.excluded.contains = true := by
    refine List.any_eq_true.mpr ⟨n, hn, List.contains_iff_mem.mpr ?_⟩
    rw [Project.excluded_of_scanner hscanner]
    exact hexcluded
  have hscope := haccepted.inScope
  rw [hid, Scan.ignores_of_excluded (fun m hm => hplaced m (List.mem_append_right _ hm)) hpassed]
    at hscope
  cases hscope

/-- What becomes of a session when all files are indexed. -/
theorem stored_indexAll (read : FileReader) (h : s.isGranted = true) {scanner : Scanner}
    (hscanner : s.project.scanner s.seen = .ok scanner) (now : Number) (incremental : Bool)
    (stopAt : Option Nat) :
    Stored s (s.after read (.indexAll now incremental stopAt)) (s.project.withFiles
      (s.project.runOver read incremental stopAt (scanner.scan s.seen)).files) now := by
  have hcases := s.after_cases read
    (show (Event.indexAll now incremental stopAt).IsOwn from trivial)
  rw [change?, if_pos h, Event.change?, hscanner] at hcases
  exact hcases

/-- **One run.** The project is left in its place and can go on. -/
theorem visiting_indexAll (hready : start.seen.Ready start.project.indexFile folder)
    (hgranted : start.isGranted = true) {scanner : Scanner}
    (hscanner : start.project.scanner start.seen = .ok scanner) (now : Number) (incremental : Bool)
    (stopAt : Option Nat) :
    Visiting start (start.after read (.indexAll now incremental stopAt)) folder := by
  have hfree : (start.after read (.indexAll now incremental stopAt)).host.Free
      start.project.writer (lockFile start.project.indexFile) :=
    Project.free_guarded _ (acquire_of_isGranted hgranted)
  have hstored := stored_indexAll read hgranted hscanner now incremental stopAt
  have hstart : Visiting start start folder := visiting_refl hgranted
  refine hstart.goOn hready ?_ ?_ hfree (hstart.changed_stored hready hstored ⟨rfl, rfl, rfl⟩)
  · rw [hstored.project]
    exact ⟨rfl, rfl, rfl⟩
  · rw [hstored.project]
    rfl

/-- Asking for the lock lists no name twice. -/
theorem distinct_seen (h : s.host.disk.Distinct) : s.seen.Distinct := by
  unfold seen Project.seen Host.acquire
  dsimp only
  split
  · exact h
  · split
    · exact h
    · next d hmade =>
      have hdistinct := h.makeLockFile hmade
      split
      · exact hdistinct
      · exact hdistinct

/-- **The traces of a run are not found.** After a run the same files are found as before it. -/
theorem finds_after_indexAll (hdisk : start.host.disk.Distinct)
    (hready : start.seen.Ready start.project.indexFile folder)
    (hnames : ∀ n ∈ folder ++ [start.project.indexFile.name], Path.IsName n)
    (hgranted : start.isGranted = true) {found : List Scan.Found}
    (hfound : start.project.finds start.host = .ok found) {now : Number} {incremental : Bool}
    {stopAt : Option Nat} {next : Session}
    (hnext : next = start.after read (.indexAll now incremental stopAt))
    (hrules : start.RulesApart folder ∧ next.RulesApart folder)
    (homits : start.Omits folder ∧ next.Omits folder) :
    next.project.finds next.host = .ok found := by
  obtain ⟨scanner, hscanner, hscan⟩ := Project.exists_scanner_of_finds hfound
  have hvisiting : Visiting start next folder :=
    hnext ▸ visiting_indexAll hready hgranted hscanner now incremental stopAt
  have hstored := stored_indexAll read hgranted hscanner now incremental stopAt
  rw [← hnext] at hstored
  have hsame := hvisiting.samePlace
  have halike := hvisiting.changed.alikeOff
  have hscope : next.project.index.scope = start.project.index.scope := by
    rw [hstored.project]
    rfl
  have hplaces : Disk.placesOf next.project.indexFile folder =
      Disk.placesOf start.project.indexFile folder := by rw [hsame.indexFile]
  have hscanner' : next.project.scanner next.seen = .ok scanner := by
    rw [← hscanner]
    refine Project.scanner_congr hsame hscope fun hrespects => ?_
    have hapart := hrules.2 (by rw [hsame.indexing]; exact hrespects)
    rw [hplaces, hsame.root] at hapart
    exact halike.read?_eq (hrules.1 hrespects) hapart
  have hdistinct : next.seen.Distinct := by
    apply distinct_seen
    rw [hstored.disk]
    exact (distinct_seen hdisk).save _ _
  have hroot := Project.root_of_scanner hscanner
  rw [Project.finds, ← Session.seen, hscanner', ← hscan]
  refine congrArg Except.ok (Scanner.scan_of_alikeOff halike
    (fun place hplace => Disk.not_mem_of_names (names_of_mem_placesOf hnames hplace).2.2)
    (fun place hplace => hready.ne_link hplace)
    (fun place hplace => (hvisiting.changed.ready hready).ne_link hplace)
    (distinct_seen hdisk) hdistinct ?_ ?_)
  · rw [hroot]
    exact homits.1 scanner hscanner
  · rw [hroot, ← hplaces, ← hsame.root]
    exact homits.2 scanner hscanner'

section Mixed

/-- The project of three modules with the older entries. -/
def mixedOld : Session := ⟨Project.mixed, Project.mixedHost⟩

/-- The session after a full run over the three modules. -/
def mixedNext : Session :=
  mixedOld.after (parseFile Project.mixedGrammars) (.indexAll .zero false none)

theorem mixedOld_ready : mixedOld.seen.Ready mixedOld.project.indexFile ["p", ".polyindex"] where
  leads := by decide +kernel
  isFolder := ⟨_, rfl⟩
  unlinked target h := by cases h
  undrafted target h := by cases h
  lockable := .file []

end Mixed

end Session

end Concordance
