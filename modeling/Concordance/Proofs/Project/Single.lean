import Concordance.Proofs.Project.Visit

/-!
# Files indexed one at a time

The files of a project can be indexed by one run, or each by itself. A run reads all files on the
disk as it is at the start; files that are visited one after the other are read on disks on which the
index was stored in between. Both gather the same entries, unless the index is kept in one of the
files (`Session.Survey.gathers_all`, `Project.gathers_runOver`).

The main statement is `Session.indexOne_each_eq_indexAll`.
-/

namespace Concordance.Session

variable {read : FileReader} {start s : Session} {folder : List String}

/-- A path names a file by its id, from the root of the project or in full. -/
def Names (start : Session) (f : Scan.Found) (path : Path) : Prop :=
  path = .ofString f.id ∨ path = (Project.rootPath start.project.root).join (.ofString f.id)

/-- A path that names a file that was found leads along the way on which it was met. -/
theorem Names.absolute_eq {f : Scan.Found} {path : Path} (h : start.Names f path)
    (hf : Scan.Stands start.project.root start.seen f) :
    start.project.absolute path = ⟨"/", start.project.root ++ f.way⟩ := by
  rw [Names, hf.ofString_id] at h
  rcases h with rfl | rfl
  · rfl
  · rfl

/-- The files that a run finds on a disk without links, apart from the places of the index. -/
structure Survey (start : Session) (found : List Scan.Found) (folder : List String) : Prop where
  plain : start.seen.Plain
  ready : start.seen.Ready start.project.indexFile folder
  scanner : ∃ scanner, start.project.scanner start.seen = .ok scanner
  stands : ∀ f ∈ found, Scan.Stands start.project.root start.seen f
  apart : ∀ f ∈ found,
    start.project.root ++ f.way ∉ Disk.placesOf start.project.indexFile folder

variable {found : List Scan.Found}

/-- No two files of a survey have one id, so files of one id are read alike. -/
theorem Survey.readAlike (h : Survey start found folder) :
    Project.ReadAlike read start.project.root found := by
  intro f hf g hg hid
  rw [(h.stands f hf).eq_of_id (h.stands g hg) hid]

/-- **One file more.** A visit gathers the file that it names. -/
theorem Survey.gathers_after (h : Survey start found folder) (hs : Visiting start s folder)
    {done : List Scan.Found} (hdone : done ⊆ found)
    (hgathers : Project.Gathers read start.project.root s.project.index.files done)
    {f : Scan.Found} (hf : f ∈ found) {now : Number} {path : Path} (hpath : start.Names f path) :
    Project.Gathers read start.project.root
      (s.after read (.indexOne now path)).project.index.files (f :: done) := by
  have halike : ∀ g ∈ done, g.id = f.id → Project.readFound read start.project.root g =
      Project.readFound read start.project.root f :=
    fun g hg hid => h.readAlike f hf g (hdone hg) hid
  have hentry : s.project.entryFor? read s.seen path = _ :=
    hs.entryFor?_eq (h.stands f hf) (h.apart f hf) h.plain h.scanner
      (hpath.absolute_eq (h.stands f hf))
  have hcases := indexOne_cases read hs.granted now path
  rw [hentry] at hcases
  cases hread : Project.readFound read start.project.root f with
  | error fault =>
      rw [hread] at hcases
      rw [hcases.project]
      exact hgathers.skip halike (by simp [hread])
  | ok result =>
      cases result with
      | none =>
          rw [hread] at hcases
          rw [hcases.project]
          exact hgathers.skip halike (by simp [hread])
      | some e =>
          rw [hread] at hcases
          rw [hcases.project]
          exact hgathers.put halike hread

/-- **All visits.** They gather the files that they name. -/
theorem Survey.gathers_run (h : Survey start found folder) {visits : List (Number × Path)}
    (hvisits : ∀ v ∈ visits, ∃ f ∈ found, start.Names f v.2) :
    ∀ {s : Session} {done : List Scan.Found}, Visiting start s folder → done ⊆ found →
      Project.Gathers read start.project.root s.project.index.files done →
      ∃ gathered, gathered ⊆ found ∧ done ⊆ gathered ∧
        (∀ v ∈ visits, ∃ f ∈ gathered, start.Names f v.2) ∧
        Project.Gathers read start.project.root
          (s.run read (visits.map fun v => .indexOne v.1 v.2)).project.index.files gathered := by
  induction visits with
  | nil =>
      intro s done _ hdone hgathers
      exact ⟨done, hdone, List.Subset.refl _, by simp, hgathers⟩
  | cons v visits ih =>
      intro s done hs hdone hgathers
      obtain ⟨⟨f, hf, hname⟩, hvisits⟩ := List.forall_mem_cons.mp hvisits
      obtain ⟨gathered, hfound, hmore, hnamed, hrun⟩ := ih hvisits (hs.after h.ready v.1 v.2)
        (List.cons_subset.mpr ⟨hf, hdone⟩) (h.gathers_after hs hdone hgathers hf hname)
      obtain ⟨hfirst, hmore⟩ := List.cons_subset.mp hmore
      exact ⟨gathered, hfound, hmore, List.forall_mem_cons.mpr ⟨⟨f, hfirst, hname⟩, hnamed⟩, hrun⟩

/-- Visits to all files that were found gather them all. -/
theorem Survey.gathers_all (h : Survey start found folder) (hgranted : start.isGranted = true)
    (hempty : start.project.index.files = .empty) {visits : List (Number × Path)}
    (hvisits : ∀ v ∈ visits, ∃ f ∈ found, start.Names f v.2)
    (hall : ∀ f ∈ found, ∃ v ∈ visits, start.Names f v.2) :
    Project.Gathers read start.project.root
      (start.run read (visits.map fun v => .indexOne v.1 v.2)).project.index.files found := by
  have hbegin : Project.Gathers read start.project.root start.project.index.files [] := by
    rw [hempty]
    exact Project.gathers_empty
  obtain ⟨gathered, hfound, -, hnamed, hrun⟩ :=
    h.gathers_run hvisits (visiting_refl hgranted) (List.nil_subset _) hbegin
  apply hrun.of_mem_iff
  intro f
  refine ⟨fun hf => ?_, fun hf => hfound hf⟩
  -- the visit that names the file has gathered a file of that name, which is the same
  obtain ⟨v, hv, hname⟩ := hall f hf
  obtain ⟨g, hg, hname'⟩ := hnamed v hv
  have hpath := (hname'.absolute_eq (h.stands g (hfound hg))).symm.trans
    (hname.absolute_eq (h.stands f hf))
  have hway : g.way = f.way := List.append_cancel_left (Path.mk.inj hpath).2
  rwa [← (h.stands f hf).eq_of_way (h.stands g (hfound hg)) hway]

/-- What a run finds on a disk without links can be visited, if the path of the index leads to none
of it. -/
theorem exists_survey (hdisk : start.host.disk.Linkless)
    (hpath : Disk.Brings Path.IsName start.project.indexFile.parts)
    (hgranted : start.isGranted = true) (hfound : start.project.finds start.host = .ok found)
    (hindex : ∀ f ∈ found, start.seen.locate start.project.indexFile.parts ≠
      .ok (start.project.root ++ f.way)) :
    ∃ folder, Survey start found folder := by
  obtain ⟨hlinkless, folder, hready⟩ := ready_seen hdisk hpath hgranted
  obtain ⟨scanner, hscanner, hscan⟩ := Project.exists_scanner_of_finds hfound
  have hroot := Project.root_of_scanner hscanner
  have hstands : ∀ f ∈ found, Scan.Stands start.project.root start.seen f := by
    intro f hf
    rw [← hscan] at hf
    rw [← hroot]
    exact hlinkless.stands_of_mem_scan hf
  refine ⟨folder, hlinkless.plain, hready, ⟨scanner, hscanner⟩, hstands, ?_⟩
  intro f hf hmem
  have haccepted : Scan.Accepted scanner start.seen f := Scan.accepted_of_mem (hscan ▸ hf)
  have hne : ∀ other : Path, Language.ofPath other = .unknown →
      start.project.root ++ f.way ≠ folder ++ [other.name] := by
    intro other hunknown
    rw [← hroot]
    exact haccepted.ne_place hunknown folder
  rcases Disk.mem_placesOf.mp hmem with hplace | hplace | hplace
  · -- the path of the index leads to what stands in its place
    have hname : Path.IsName start.project.indexFile.name := by
      apply (hstands f hf).names
      rw [hplace]
      exact List.mem_append_right _ (List.mem_singleton.mpr rfl)
    have hparts : start.project.indexFile.parts ≠ [] := by
      intro hnil
      apply hname.1
      rw [Path.name, hnil]
      rfl
    have hfile := (hstands f hf).file
    rw [hplace] at hfile
    obtain ⟨inner, hinner⟩ := hready.isFolder
    have hlookup : inner.lookup start.project.indexFile.name = some (.file f.contents) :=
      (Entry.at?_concat hinner _).symm.trans hfile
    have hlocate := Disk.locate_concat hready.leads hinner hname.2.2.1 (by simp [hlookup])
    rw [hlookup, Option.isSome_some, if_pos rfl, Path.parts_eq hparts, ← hplace] at hlocate
    exact hindex f hf hlocate
  · exact hne _ (Language.ofPath_draftOf _) hplace
  · exact hne _ (Language.ofPath_lockFile _) hplace

/-- **The usual place.** A run does not find an index that is kept in its usual folder, which it
passes by. -/
theorem usual_index_not_found {start : Session} (hplaced : start.project.Placed)
    (hdisk : start.host.disk.Linkless) (hgranted : start.isGranted = true)
    {found : List Scan.Found} (hfound : start.project.finds start.host = .ok found) :
    ∀ f ∈ found, start.seen.locate start.project.indexFile.parts ≠
      .ok (start.project.root ++ f.way) := by
  intro f hf hlocate
  have hnames := hplaced.names_indexFile
  obtain ⟨hlinkless, -⟩ := ready_seen hdisk (fun n hn _ => hnames n hn) hgranted
  obtain ⟨scanner, hscanner, rfl⟩ := Project.exists_scanner_of_finds hfound
  have hway : f.way = [".polyindex", "index.json"] := by
    have hadvance := hlinkless.plain.advance_of_locate hlocate
    have heq := Disk.eq_of_advance_arrived (Disk.not_mem_of_names hnames) hadvance
    rw [List.nil_append, hplaced.indexFile_parts] at heq
    exact List.append_cancel_left heq
  have hid : f.id = ".polyindex/index.json" := by
    rw [(hlinkless.stands_of_mem_scan hf).id, hway]
    decide
  have hscope := (Scan.accepted_of_mem hf).inScope
  have hparts : (Path.ofString ".polyindex/index.json").allParts.dropLast = [".polyindex"] := by
    decide
  have hexcluded : scanner.excluded.contains ".polyindex" = true := by
    rw [Project.excluded_of_scanner hscanner, hplaced.folder]
    decide
  rw [hid, Scanner.ignores, hparts, List.any_cons, hexcluded] at hscope
  cases hscope

/-- **One run equals one visit to each file.** Let a project on a disk without links start from an
empty index, and let the path of the index lead to none of the files that a run finds. If every file
found is indexed by itself, in any order and by its id from the root of the project or in full, the
index has the same entries under the same ids as after a run that comes to its end. These are the
entries that the files give when they are read as they were found. -/
theorem indexOne_each_eq_indexAll {start : Session} (hdisk : start.host.disk.Linkless)
    (hpath : Disk.Brings Path.IsName start.project.indexFile.parts)
    (hgranted : start.isGranted = true) (hempty : start.project.index.files = .empty)
    {found : List Scan.Found} (hfound : start.project.finds start.host = .ok found)
    (hindex : ∀ f ∈ found, start.seen.locate start.project.indexFile.parts ≠
      .ok (start.project.root ++ f.way))
    {visits : List (Number × Path)} (hvisits : ∀ v ∈ visits, ∃ f ∈ found, start.Names f v.2)
    (hall : ∀ f ∈ found, ∃ v ∈ visits, start.Names f v.2)
    {now : Number} {incremental : Bool} {stopAt : Option Nat}
    (hdone : NotCancelled (start.project.indexAll start.host read now incremental stopAt)) :
    let each := (start.run read (visits.map fun v => .indexOne v.1 v.2)).project.index.files
    let whole := (start.after read (.indexAll now incremental stopAt)).project.index.files
    (∀ id, each.get? id = whole.get? id) ∧
      ∀ id e, each.get? id = some e ↔ ∃ f ∈ found, f.id = id ∧
        read ⟨"/", start.project.root ++ f.way⟩ f.contents f.id = .ok (some e) := by
  intro each whole
  obtain ⟨folder, hsurvey⟩ := exists_survey hdisk hpath hgranted hfound hindex
  have heach : Project.Gathers read start.project.root each found :=
    hsurvey.gathers_all hgranted hempty hvisits hall
  obtain ⟨hanswer, hfiles, -⟩ := Project.indexAll_of_finds read incremental now stopAt
    (acquire_of_isGranted hgranted) hfound
  have hwhole : Project.Gathers read start.project.root whole found := by
    rw [show whole = _ from hfiles]
    exact Project.gathers_runOver hempty hsurvey.readAlike (hdone _ hanswer)
  exact ⟨heach.get?_eq hwhole, heach⟩

section Mixed

/-- The project of three modules, of which one fails and one has no grammar, just opened. -/
def mixedStart : Session where
  project := .openWith Project.mixedHost.disk ["p"] {} none 0
  host := Project.mixedHost

/-- The three modules by themselves, last one first, and the one that is read in full. -/
def mixedVisits : List (Number × Path) :=
  [(.zero, .ofString "q/r/c.rb"), (.zero, .ofString "q/b.py"), (.zero, .ofString "/p/a.py")]

theorem mixedHost_linkless : Project.mixedHost.disk.Linkless :=
  Disk.linkless_of_allPlain (by decide)

/-- Of three modules one gets an entry, in whichever way they are indexed. -/
theorem indexOne_each_eq_indexAll_mixed :
    mixedStart.project.finds mixedStart.host = .ok Project.mixedFound ∧
      (mixedStart.run (parseFile Project.mixedGrammars)
        (mixedVisits.map fun v => .indexOne v.1 v.2)).project.index.files.keys = ["a.py"] ∧
      (∀ id, (mixedStart.run (parseFile Project.mixedGrammars)
          (mixedVisits.map fun v => .indexOne v.1 v.2)).project.index.files.get? id =
        (mixedStart.after (parseFile Project.mixedGrammars)
          (.indexAll .zero true none)).project.index.files.get? id) := by
  have hfound : mixedStart.project.finds mixedStart.host = .ok Project.mixedFound := by
    decide +kernel
  have hgranted : mixedStart.isGranted = true := by decide +kernel
  have hplaced : mixedStart.project.Placed := ⟨by decide, rfl, rfl⟩
  refine ⟨hfound, by decide +kernel, ?_⟩
  exact (indexOne_each_eq_indexAll mixedHost_linkless (by unfold Disk.Brings; decide)
    hgranted rfl hfound (usual_index_not_found hplaced mixedHost_linkless hgranted hfound)
    (by unfold Names; decide +kernel) (by unfold Names; decide +kernel)
    (notCancelled_indexAll _ _ _)).1

end Mixed

/-- After a visit whose entry was stored, the index is read through its own path. -/
theorem read?_index_after {start : Session} (hdisk : start.host.disk.Linkless)
    (hpath : Disk.Brings Path.IsName start.project.indexFile.parts)
    (hgranted : start.isGranted = true) (hparts : start.project.indexFile.parts ≠ [])
    (hname : start.project.indexFile.name ≠ "..") {now : Number} {path : Path}
    (hentry : (start.project.entryFor? read start.seen path).isSome)
    (hsaved : start.saved read (.indexOne now path) = true) :
    (start.after read (.indexOne now path)).seen.read? start.project.indexFile.parts =
      some (Utf8.bytes (start.after read (.indexOne now path)).project.index.stored) := by
  obtain ⟨-, folder, hready⟩ := ready_seen hdisk hpath hgranted
  have hcases := indexOne_cases read hgranted now path
  obtain ⟨⟨id, e⟩, hentry⟩ := Option.isSome_iff_exists.mp hentry
  rw [hentry] at hcases
  rw [saved, change?, if_pos hgranted, Event.change?, hentry] at hsaved
  apply Project.read?_seen
  rw [hcases.disk, hcases.project]
  exact (hready.toSeat.read?_save hparts hname hsaved).2

/-- A file that cannot be read gets no entry. -/
theorem entryFor?_eq_none {p : Project} {d : Disk} {path : Path} {contents : Bytes}
    (hread : d.read? (p.absolute path).parts = some contents)
    (hfails : ∀ id, ∃ fault, read (p.absolute path) contents id = .error fault) :
    p.entryFor? read d path = none := by
  unfold Project.entryFor?
  rw [hread]
  cases p.idOf d path with
  | error fault => rfl
  | ok id =>
      obtain ⟨fault, hfault⟩ := hfails id
      dsimp only
      rw [hfault]

/-- Then nothing is stored. -/
theorem files_after_of_entryFor?_eq_none {s : Session} (hgranted : s.isGranted = true)
    {path : Path} (hentry : s.project.entryFor? read s.seen path = none) (now : Number) :
    (s.after read (.indexOne now path)).project.index.files = s.project.index.files := by
  have hcases := indexOne_cases read hgranted now path
  rw [hentry] at hcases
  rw [hcases.project]

section Own

/-- Grammars that make no tree of a text that starts with a brace. -/
def braceGrammars : Grammars where
  isMissing _ := false
  tree? _ source :=
    if source.head? == some 123 then none
    else some (.node ⟨"module", true, 0, source.length, none⟩ [])

/-- A disk with a project of two modules, one of them empty. -/
def ownDisk : Disk :=
  ⟨[("p", .folder [("data.py", .file []), ("q", .folder [("b.py", .file [120])])])]⟩

/-- The project of the two modules, with its index in the empty one. -/
def own : Session where
  project := .openWith ownDisk ["p"] {} (some (.ofString "/p/data.py")) 0
  host := { disk := ownDisk }

/-- The session after the other module was indexed. -/
def ownNext : Session := own.after (parseFile braceGrammars) (.indexOne .zero (.ofString "q/b.py"))

/-- The two modules as a run finds them. -/
def ownFound : List Scan.Found := [⟨["data.py"], "data.py", []⟩, ⟨["q", "b.py"], "q/b.py", [120]⟩]

theorem ownDisk_linkless : ownDisk.Linkless :=
  Disk.linkless_of_allPlain (by decide)

/-- A stored index has no tree. -/
theorem parseFile_stored (index : ProjectIndex) (id : String) :
    parseFile braceGrammars ⟨"/", ["p", "data.py"]⟩ (Utf8.bytes index.stored) id =
      .error .noTree := by
  obtain ⟨cs, hcs⟩ := Settings.exists_toList_stored index
  have hbytes : Utf8.bytes index.stored = 123 :: Utf8.encode cs := by
    rw [Utf8.bytes, hcs, Utf8.encode_cons]
    rfl
  have hlanguage : Language.ofPath ⟨"/", ["p", "data.py"]⟩ = .python := by decide
  unfold parseFile
  rw [hlanguage, hbytes]
  rfl

/-- Two files in a folder are sorted by their names. -/
theorem byName_pair (v w : Scan.Visit) :
    Scan.byName [v, w] = if v.name ≤ w.name then [v, w] else [w, v] := by
  simp [Scan.byName, List.mergeSort, List.merge]

/-- The folder of the project once the lock file is there. -/
def ownFolder : List (String × Entry) :=
  [("data.py", .file []), ("q", .folder [("b.py", .file [120])]), ("data.lock", .file [])]

/-- The scanner of the project. -/
def ownScanner : Scanner :=
  { root := ["p"], excluded := Settings.excludedFolders ++ [Settings.usualFolder] }

theorem own_walk : Scan.walk ownScanner.excluded.contains (.folder ownFolder) =
    [["data.lock"], ["data.py"], ["q", "b.py"]] := by
  have hfiles : (Scan.visits ownScanner.excluded.contains ownFolder).filter
      (fun v => v.inside.isNone) = [⟨"data.py", none⟩, ⟨"data.lock", none⟩] := by
    decide +kernel
  have hfolders : Scan.byName ((Scan.visits ownScanner.excluded.contains ownFolder).filter
      (fun v => v.inside.isSome)) = [⟨"q", some [["b.py"]]⟩] := by
    decide +kernel
  rw [Scan.walk, Scan.inside, Option.getD_some, Scan.inOrder, hfiles, hfolders, byName_pair]
  decide +kernel

theorem own_finds : own.project.finds own.host = .ok ownFound := by
  have hseen : own.project.seen own.host = ⟨[("p", .folder ownFolder)]⟩ := rfl
  have hscanner : own.project.scanner ⟨[("p", .folder ownFolder)]⟩ = .ok ownScanner := rfl
  have hfolder : Disk.at? ⟨[("p", .folder ownFolder)]⟩ ownScanner.root =
      some (.folder ownFolder) := rfl
  rw [Project.finds, hseen, hscanner, Except.map, Scanner.scan, hfolder]
  dsimp only
  rw [own_walk]
  decide +kernel

/-- Once the other module was indexed, the index stands where the empty one stood. -/
theorem ownNext_read? : ownNext.seen.read? ["p", "data.py"] =
    some (Utf8.bytes ownNext.project.index.stored) := by
  have hparts : own.project.indexFile.parts = ["p", "data.py"] := by decide +kernel
  have hpath : Disk.Brings Path.IsName own.project.indexFile.parts := by
    rw [hparts]
    unfold Disk.Brings
    decide
  rw [← hparts]
  exact read?_index_after ownDisk_linkless hpath (by decide +kernel) (by rw [hparts]; simp)
    (by decide +kernel) (by decide +kernel) (by decide +kernel)

/-- So it cannot be read any more. -/
theorem ownNext_entryFor? :
    ownNext.project.entryFor? (parseFile braceGrammars) ownNext.seen (.ofString "data.py") =
      none := by
  have habsolute : ownNext.project.absolute (.ofString "data.py") = ⟨"/", ["p", "data.py"]⟩ := by
    decide +kernel
  apply entryFor?_eq_none
  · rw [habsolute]
    exact ownNext_read?
  · intro id
    rw [habsolute]
    exact ⟨.noTree, parseFile_stored _ id⟩

/-- An index in a file of the project is in the way: a module that is indexed after another one is
no longer what it was, and its entry is missing. -/
theorem indexOne_each_ne_indexAll_own :
    own.host.disk.Linkless ∧ own.isGranted = true ∧ own.project.index.files = .empty ∧
      own.project.finds own.host = .ok ownFound ∧
      (own.run (parseFile braceGrammars) (ownFound.reverse.map fun f =>
        .indexOne .zero (.ofString f.id))).project.index.files.get? "data.py" = none ∧
      ((own.after (parseFile braceGrammars)
        (.indexAll .zero true none)).project.index.files.get? "data.py").isSome := by
  have hgranted : own.isGranted = true := by decide +kernel
  refine ⟨ownDisk_linkless, hgranted, rfl, own_finds, ?_, ?_⟩
  · have hvisits : (ownFound.reverse.map fun f => Event.indexOne .zero (.ofString f.id)) =
        [.indexOne .zero (.ofString "q/b.py"), .indexOne .zero (.ofString "data.py")] := rfl
    rw [hvisits, run, List.foldl_cons, ← ownNext, List.foldl_cons, List.foldl_nil,
      files_after_of_entryFor?_eq_none (by decide +kernel) ownNext_entryFor?]
    decide +kernel
  · obtain ⟨-, hfiles, -⟩ := Project.indexAll_of_finds (parseFile braceGrammars) true .zero none
      (acquire_of_isGranted hgranted) own_finds
    rw [after, ofReply, hfiles]
    decide +kernel

end Own

end Concordance.Session
