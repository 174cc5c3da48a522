import Concordance.Proofs.Scan.Found

/-!
# A scan and the whole tree

A scan passes by excluded folders while it walks, and it also leaves out ids that lead through such a
folder. Both exclude the same files, so passing by only spares the walk: a scan finds what it would
find if it walked through everything and then kept what it is to keep
(`Scanner.scan_eq_unpruned`). In a project without links the ids of what it finds are distinct.
-/

namespace Concordance

namespace Scan

/-- What a scan is to keep of a way: the file there, if its language is accepted, its id is not
ignored, and it is not too large. -/
def kept (s : Scanner) (d : Disk) (way : List String) : Option Found :=
  match d.at? (s.root ++ way) with
  | some (.file contents) =>
    if s.accepts (.ofPath ⟨"", way⟩) = true ∧ s.ignores (Path.toText ⟨"", way⟩) = false ∧
        contents.length ≤ s.largestFile then
      some ⟨way, Path.toText ⟨"", way⟩, contents⟩
    else none
  | _ => none

variable {s : Scanner} {d : Disk} {entries : List (String × Entry)} {way : List String}

/-- What stands on a way below a folder stands in the folder on the rest of the way. -/
theorem at?_root_append {root : List String} (hroot : d.at? root = some (.folder entries))
    (way : List String) : d.at? (root ++ way) = Entry.at? way entries := by
  rw [Disk.at?, Entry.at?_append, ← Disk.at?, hroot]

/-- A folder without links has a file at the end of every way of a walk that passes nothing by. -/
theorem mem_walk_iff_file (htree : Entry.Ruled Path.IsName (fun _ => False) (.folder entries))
    (hdistinct : Entry.Distinct (.folder entries)) :
    way ∈ walk (fun _ => false) (.folder entries) ↔
      ∃ contents, Entry.at? way entries = some (.file contents) := by
  rw [mem_walk_iff hdistinct]
  constructor
  · rintro ⟨⟨e, he, hleaf⟩, -⟩
    cases e with
    | file contents => exact ⟨contents, he⟩
    | link target => exact (htree.at? he).2.target.elim
    | folder inner => exact absurd rfl (hleaf inner)
  · rintro ⟨contents, he⟩
    exact ⟨⟨_, he, by simp⟩, by simp⟩

/-- When a file is kept. -/
theorem kept_eq_some_iff {contents : Bytes} {f : Found}
    (hfile : d.at? (s.root ++ way) = some (.file contents)) :
    kept s d way = some f ↔
      f = ⟨way, Path.toText ⟨"", way⟩, contents⟩ ∧ s.accepts (.ofPath ⟨"", way⟩) = true ∧
        s.ignores (Path.toText ⟨"", way⟩) = false ∧ contents.length ≤ s.largestFile := by
  unfold kept
  rw [hfile]
  dsimp only
  rw [Option.ite_none_right_eq_some, Option.some_inj, and_comm, eq_comm]

/-- A file on its own way is judged by the way. -/
theorem judge_of_file {contents : Bytes} (hup : ".." ∉ s.root ++ way)
    (hfile : d.at? (s.root ++ way) = some (.file contents)) : judge s d way = kept s d way := by
  have hread : d.read? (s.root ++ way) = some contents :=
    Disk.read?_of_locate (Disk.locate_of_at? hup (by simp) hfile) hfile
  apply Option.ext
  intro f
  rw [judge_eq_some_iff, kept_eq_some_iff hfile, hread, Scanner.id?_of_at? hup hfile,
    Option.some_inj, Option.some_inj]
  constructor
  · rintro ⟨rfl, haccepts, hcontents, hid, hscope, hfits⟩
    rw [← hid] at hscope
    rw [← hcontents] at hfits
    refine ⟨?_, haccepts, hscope, hfits⟩
    rw [hid, hcontents]
  · rintro ⟨rfl, haccepts, hscope, hfits⟩
    exact ⟨rfl, haccepts, rfl, rfl, hscope, hfits⟩

/-- An id that leads through an excluded folder is ignored. -/
theorem ignores_of_excluded (hnames : ∀ n ∈ way, Path.IsName n)
    (h : way.dropLast.any s.excluded.contains = true) :
    s.ignores (Path.toText ⟨"", way⟩) = true := by
  have hparts : (Path.ofString (Path.toText ⟨"", way⟩)).allParts = way := by
    rw [Path.ofString_toText hnames]
    rfl
  rw [Scanner.ignores, hparts, h]
  rfl

/-- **A scan meets every way at most once**, links or not. -/
theorem nodup_ways_scan {e : Entry} (hroot : d.at? s.root = some e) (hdistinct : e.Distinct) :
    ((s.scan d).map Found.way).Nodup := by
  rw [Scanner.scan, hroot, List.Nodup, List.pairwise_map, List.pairwise_filterMap]
  refine (pairwise_walk hdistinct).imp fun {w w'} hbefore => ?_
  intro f hf f' hf' heq
  rw [(judge_eq_some_iff.mp hf).1, (judge_eq_some_iff.mp hf').1] at heq
  exact hbefore.ne heq

end Scan

namespace Scanner

open Scan

variable {s : Scanner} {d : Disk} {entries : List (String × Entry)}

/-- Passing by and ignoring exclude the same files. -/
theorem scan_eq_filterMap_kept (hroot : d.at? s.root = some (.folder entries))
    (hup : ".." ∉ s.root) (htree : Entry.Ruled Path.IsName (fun _ => False) (.folder entries))
    (hdistinct : Entry.Distinct (.folder entries)) :
    s.scan d = (walk (fun _ => false) (.folder entries)).filterMap (kept s d) := by
  rw [scan, hroot]
  dsimp only
  rw [walk_eq_filter hdistinct, List.filterMap_filter]
  refine List.filterMap_congr fun way hway => ?_
  obtain ⟨contents, hfile⟩ := (mem_walk_iff_file htree hdistinct).mp hway
  have hnames := (htree.at? hfile).1
  rw [← at?_root_append hroot] at hfile
  split
  · apply judge_of_file _ hfile
    rw [List.mem_append, not_or]
    exact ⟨hup, Disk.not_mem_of_names hnames⟩
  · next hexcluded =>
    have hignored : s.ignores (Path.toText ⟨"", way⟩) = true :=
      ignores_of_excluded hnames (by simpa using hexcluded)
    rw [kept, hfile, hignored]
    exact (if_neg fun h => by cases h.2.1).symm

/-- **What a scan finds in a project without links** is a file on its own way, which is its id. -/
theorem kept_of_mem_scan (hroot : d.at? s.root = some (.folder entries)) (hup : ".." ∉ s.root)
    (htree : Entry.Ruled Path.IsName (fun _ => False) (.folder entries))
    (hdistinct : Entry.Distinct (.folder entries)) {f : Found} (hf : f ∈ s.scan d) :
    (∀ n ∈ f.way, Path.IsName n) ∧ f.id = Path.toText ⟨"", f.way⟩ ∧ kept s d f.way = some f := by
  rw [scan_eq_filterMap_kept hroot hup htree hdistinct] at hf
  obtain ⟨way, hway, hkept⟩ := List.mem_filterMap.mp hf
  obtain ⟨contents, hfile⟩ := (mem_walk_iff_file htree hdistinct).mp hway
  rw [← at?_root_append hroot] at hfile
  obtain ⟨rfl, -⟩ := (kept_eq_some_iff hfile).mp hkept
  exact ⟨names_of_walk htree way hway, rfl, hkept⟩

/-- In a project without links no two files that a scan finds have one id. -/
theorem nodup_ids_scan (hroot : d.at? s.root = some (.folder entries)) (hup : ".." ∉ s.root)
    (htree : Entry.Ruled Path.IsName (fun _ => False) (.folder entries))
    (hdistinct : Entry.Distinct (.folder entries)) : ((s.scan d).map Found.id).Nodup := by
  have hways := nodup_ways_scan hroot hdistinct
  refine List.Nodup.map_on (fun f hf g hg hid => ?_) hways.of_map
  obtain ⟨hnames, hfid, -⟩ := kept_of_mem_scan hroot hup htree hdistinct hf
  obtain ⟨hnames', hgid, -⟩ := kept_of_mem_scan hroot hup htree hdistinct hg
  rw [hfid, hgid] at hid
  exact List.inj_on_of_nodup_map hways hf hg (Path.eq_of_toText hnames hnames' hid)

/-- What is found under the way of a file is that file. -/
theorem eq_of_mem_scan (hroot : d.at? s.root = some (.folder entries)) (hup : ".." ∉ s.root)
    (htree : Entry.Ruled Path.IsName (fun _ => False) (.folder entries))
    (hdistinct : Entry.Distinct (.folder entries)) {way : List String} {contents : Bytes}
    (hfile : d.at? (s.root ++ way) = some (.file contents)) {f : Found} (hf : f ∈ s.scan d)
    (hid : f.id = Path.toText ⟨"", way⟩) : f = ⟨way, Path.toText ⟨"", way⟩, contents⟩ := by
  obtain ⟨hnames, htext, hkept⟩ := kept_of_mem_scan hroot hup htree hdistinct hf
  have hinside := hfile
  rw [at?_root_append hroot] at hinside
  have hway : f.way = way := Path.eq_of_toText hnames (htree.at? hinside).1 (htext.symm.trans hid)
  rw [hway] at hkept
  exact ((kept_eq_some_iff hfile).mp hkept).1

/-- **When a file is found** in a project without links. -/
theorem mem_scan_iff (hroot : d.at? s.root = some (.folder entries)) (hup : ".." ∉ s.root)
    (htree : Entry.Ruled Path.IsName (fun _ => False) (.folder entries))
    (hdistinct : Entry.Distinct (.folder entries)) {way : List String} {contents : Bytes}
    (hfile : d.at? (s.root ++ way) = some (.file contents)) :
    ⟨way, Path.toText ⟨"", way⟩, contents⟩ ∈ s.scan d ↔
      s.accepts (.ofPath ⟨"", way⟩) = true ∧ s.ignores (Path.toText ⟨"", way⟩) = false ∧
        contents.length ≤ s.largestFile := by
  constructor
  · intro hf
    obtain ⟨-, -, hkept⟩ := kept_of_mem_scan hroot hup htree hdistinct hf
    exact ((kept_eq_some_iff hfile).mp hkept).2
  · intro hkept
    rw [scan_eq_filterMap_kept hroot hup htree hdistinct]
    refine List.mem_filterMap.mpr ⟨way, ?_, (kept_eq_some_iff hfile).mpr ⟨rfl, hkept⟩⟩
    rw [at?_root_append hroot] at hfile
    exact (mem_walk_iff_file htree hdistinct).mpr ⟨contents, hfile⟩

/-- **A scan is the whole tree less what is not to be kept.** Let the folder of a project have no
links in it, and no name twice in any folder. The ways that a walk meets which passes nothing by are
those of all files in it, the files of a folder by name and then what is in its folders, by name. A
scan finds, in this order, exactly the files among them whose language is accepted, whose id is not
ignored, and that are not too large; and no two of them have one id. -/
theorem scan_eq_unpruned (hroot : d.at? s.root = some (.folder entries)) (hup : ".." ∉ s.root)
    (htree : Entry.Ruled Path.IsName (fun _ => False) (.folder entries))
    (hdistinct : Entry.Distinct (.folder entries)) :
    let ways := walk (fun _ => false) (.folder entries)
    (∀ way, way ∈ ways ↔ ∃ contents, d.at? (s.root ++ way) = some (.file contents)) ∧
      ways.Pairwise Before ∧
      s.scan d = ways.filterMap (kept s d) ∧
      ((s.scan d).map Found.id).Nodup := by
  intro ways
  have hways : ∀ way, way ∈ ways ↔ ∃ contents, d.at? (s.root ++ way) = some (.file contents) := by
    intro way
    rw [at?_root_append hroot]
    exact mem_walk_iff_file htree hdistinct
  exact ⟨hways, pairwise_walk hdistinct, scan_eq_filterMap_kept hroot hup htree hdistinct,
    nodup_ids_scan hroot hup htree hdistinct⟩

section Nested

/-- A project of five files, each in a folder of the one before. -/
def nestedFolder : List (String × Entry) :=
  [("a.py", .file [120]), ("src", .folder [("lib", .folder [("docs", .folder
    [("e.md", .file []), ("build", .folder [("d.py", .file [])])]), ("c.py", .file [120, 121, 122])]),
    ("b.ts", .file [])])]

/-- A disk with the project and a link beside it. -/
def nestedDisk : Disk :=
  ⟨[("q", .link (.ofString "p")), ("p", .folder nestedFolder)]⟩

/-- A scanner that ignores texts and files of more than two bytes. -/
def nestedScanner : Scanner :=
  { root := ["p"], largestFile := 2, rules := .ofText "*.md".toList }

/-- Of five files a scan finds two: of the others one is too large, one is ignored, and one is in an
excluded folder. -/
theorem scan_eq_unpruned_nested :
    walk (fun _ => false) (.folder nestedFolder) = [["a.py"], ["src", "b.ts"],
        ["src", "lib", "c.py"], ["src", "lib", "docs", "e.md"],
        ["src", "lib", "docs", "build", "d.py"]] ∧
      (nestedScanner.scan nestedDisk).map Found.id = ["a.py", "src/b.ts"] ∧
      nestedScanner.scan nestedDisk =
        (walk (fun _ => false) (.folder nestedFolder)).filterMap (kept nestedScanner nestedDisk) :=
  ⟨by decide +kernel, by decide +kernel,
    (scan_eq_unpruned rfl (by decide) (Entry.ruled_of_isPlain _ (by decide))
      (Entry.distinct_of_isDistinct _ (by decide))).2.2.1⟩

end Nested

end Scanner

end Concordance
