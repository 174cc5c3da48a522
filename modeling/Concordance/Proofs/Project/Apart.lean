import Concordance.Proofs.Project.Visit
import Concordance.Proofs.Scan.Whole

/-!
# The index and its own folder

A project passes by the folder that its settings name for the index. What it passes by are folders of
a single name, so this keeps the index out of the project if the settings write the folder as one
name, or if the way to it leads through a folder that is never part of a project
(`Project.HidesIndex`). Then no run, however often, puts a file below that folder into the index
(`Session.Apart.run`). If neither holds, the folder is a folder like any other: what stands in it is
indexed exactly if it would be elsewhere (`Session.Surveys.mem_keys_iff`), the stored index included.
-/

namespace Concordance

/-- Whether the patterns of a scope or the ignore rules leave an id out. -/
def Scanner.leavesOut (s : Scanner) (id : String) : Bool :=
  (!s.scope.included.isEmpty && !s.scope.included.any fun g => Glob.accepts g id) ||
    (s.scope.excluded.any fun g => Glob.accepts g id) ||
    s.rules.ignores (.ofString id)

/-- An id is ignored for its folders or for itself. -/
theorem Scanner.ignores_eq (s : Scanner) (id : String) :
    s.ignores id =
      ((Path.ofString id).allParts.dropLast.any s.excluded.contains || s.leavesOut id) := by
  rw [ignores, leavesOut, Bool.or_assoc, Bool.or_assoc, Bool.or_assoc]

/-- The folders on a path below a folder are those to it and those in it. -/
theorem Path.dropLast_allParts {way rest : List String} (hrest : rest ≠ []) :
    (allParts ⟨"", way ++ rest⟩).dropLast = way ++ rest.dropLast :=
  List.dropLast_append_of_ne_nil hrest

/-- When a path below a folder is in scope. -/
theorem Scanner.ignores_eq_false_iff {s : Scanner} {way rest : List String}
    (hnames : ∀ n ∈ way ++ rest, Path.IsName n) (hrest : rest ≠ []) :
    s.ignores (Path.toText ⟨"", way ++ rest⟩) = false ↔
      (∀ n ∈ way ++ rest.dropLast, n ∉ s.excluded) ∧
        s.leavesOut (Path.toText ⟨"", way ++ rest⟩) = false := by
  rw [ignores_eq, Path.ofString_toText hnames, Path.dropLast_allParts hrest, Bool.or_eq_false_iff,
    List.any_eq_false]
  simp only [List.contains_iff_mem]

namespace Path

/-- A text that is a path below a folder. -/
def IsBelow (way : List String) (text : String) : Prop :=
  ∃ rest, rest ≠ [] ∧ ofString text = ⟨"", way ++ rest⟩

end Path

namespace Project

/-- The folder that settings name for the index is `way` below the root of the project. -/
def KeepsIndexIn (p : Project) (way : List String) : Prop :=
  Path.normalized ((rootPath p.root).join (.ofString p.settings.indexing.folder)) =
    ⟨"/", p.root ++ way⟩

instance (p : Project) (way : List String) : Decidable (p.KeepsIndexIn way) :=
  inferInstanceAs (Decidable (_ = _))

/-- The folder of the index is written as a single name, or the way to it leads through a folder that
is never part of a project. -/
def HidesIndex (p : Project) (way : List String) : Prop :=
  way = [p.settings.indexing.folder] ∨ ∃ n ∈ way, n ∈ Settings.excludedFolders

instance (p : Project) (way : List String) : Decidable (p.HidesIndex way) :=
  inferInstanceAs (Decidable (_ ∨ _))

variable {p : Project} {way : List String}

/-- A folder whose name is all that the settings say is a single name. -/
theorem KeepsIndexIn.eq_singleton (h : p.KeepsIndexIn way) (hroot : ∀ n ∈ p.root, Path.IsName n)
    (hmem : p.settings.indexing.folder ∈ way) : way = [p.settings.indexing.folder] := by
  unfold KeepsIndexIn at h
  generalize p.settings.indexing.folder = folder at h hmem ⊢
  have hname : Path.IsName folder := by
    -- the name comes from the path to the root, or from the text itself
    have hparts : folder ∈ (Path.normalized ((rootPath p.root).join (.ofString folder))).parts := by
      rw [h]
      exact List.mem_append_right _ hmem
    unfold Path.join at hparts h
    split at hparts
    · next habsolute =>
      rw [if_pos habsolute] at h
      have hslash : (Path.ofString folder).root = "/" := congrArg Path.root h
      have hpath : Path.ofString folder = ⟨"/", Path.namesOf folder.toList⟩ := by
        rw [← hslash]
        rfl
      rw [hpath] at hparts
      obtain ⟨hin, hup⟩ := Path.of_mem_normalized hparts
      exact Path.isName_of_mem_namesOf hin hup
    · obtain ⟨hin, hup⟩ := Path.of_mem_normalized hparts
      rcases List.mem_append.mp hin with hin | hin
      · exact hroot _ hin
      · exact Path.isName_of_mem_namesOf hin hup
  have hup : ".." ∉ p.root ++ [folder] := by
    apply Disk.not_mem_of_names
    intro n hn
    rcases List.mem_append.mp hn with hn | hn
    · exact hroot n hn
    · rwa [List.mem_singleton.mp hn]
  have hjoin : (rootPath p.root).join (.ofString folder) = ⟨"/", p.root ++ [folder]⟩ := by
    rw [Path.ofString_of_isName hname]
    rfl
  rw [hjoin, Path.normalized_of_notMem hup] at h
  exact (List.append_cancel_left (Path.mk.inj h).2).symm

/-- The index is hidden if the way to its folder leads through a folder that the scanner passes by. -/
theorem KeepsIndexIn.hidesIndex_iff (h : p.KeepsIndexIn way)
    (hroot : ∀ n ∈ p.root, Path.IsName n) {d : Disk} {s : Scanner} (hs : p.scanner d = .ok s) :
    p.HidesIndex way ↔ ∃ n ∈ way, n ∈ s.excluded := by
  rw [excluded_of_scanner hs]
  constructor
  · rintro (hsingle | ⟨n, hn, hexcluded⟩)
    · refine ⟨p.settings.indexing.folder, ?_, by simp⟩
      rw [hsingle]
      exact List.mem_singleton.mpr rfl
    · exact ⟨n, hn, List.mem_append_left _ hexcluded⟩
  · rintro ⟨n, hn, hexcluded⟩
    rcases List.mem_append.mp hexcluded with hexcluded | hfolder
    · exact .inr ⟨n, hn, hexcluded⟩
    · rw [List.mem_singleton.mp hfolder] at hn
      exact .inl (h.eq_singleton hroot hn)

/-- A scan finds nothing below a folder that is hidden. -/
theorem HidesIndex.not_isBelow (h : p.HidesIndex way) (hway : p.KeepsIndexIn way)
    (hroot : ∀ n ∈ p.root, Path.IsName n) {d : Disk} {s : Scanner} (hs : p.scanner d = .ok s)
    {f : Scan.Found} (hf : f ∈ s.scan d) : ¬ Path.IsBelow way f.id := by
  rintro ⟨rest, hrest, hpath⟩
  obtain ⟨n, hn, hexcluded⟩ := (hway.hidesIndex_iff hroot hs).mp h
  have hpassed : (way ++ rest.dropLast).any s.excluded.contains = true :=
    List.any_eq_true.mpr ⟨n, List.mem_append_left _ hn, List.contains_iff_mem.mpr hexcluded⟩
  have hscope := (Scan.accepted_of_mem hf).inScope
  rw [Scanner.ignores_eq, hpath, Path.dropLast_allParts hrest, hpassed] at hscope
  cases hscope

/-- What a run leaves of a file that can be read is an entry. -/
theorem exists_get?_applied (p : Project) {read : FileReader} (incremental : Bool) {f : Scan.Found}
    {e : FileEntry} (hread : readFound read p.root f = .ok (some e)) :
    ∃ left, (((p.workOn f).outcome read incremental).applied p.index.files f.id).get? f.id =
      some left := by
  rw [Outcome.get?_applied_self, effect?_workOn, hread]
  split
  · next hcurrent =>
    -- there was one before, with the same fingerprint
    obtain ⟨left, hleft, -⟩ := Option.map_eq_some_iff.mp hcurrent.2
    exact ⟨left, hleft⟩
  · exact ⟨e, rfl⟩

end Project

namespace Session

variable {read : FileReader} {s : Session} {way : List String}

/-! ### A hidden folder -/

/-- No key of the index is a path below a folder. -/
def Apart (s : Session) (way : List String) : Prop :=
  ∀ key ∈ s.project.index.files.keys, ¬ Path.IsBelow way key

/-- A single file is indexed, whether it is in scope or not. -/
def Event.IsVisit : Event → Prop
  | .indexOne _ _ => True
  | _ => False

/-- The folder of the index of a project is hidden below its root. -/
structure Hides (s : Session) (way : List String) : Prop where
  names : ∀ n ∈ s.project.root, Path.IsName n
  folder : s.project.KeepsIndexIn way
  hidden : s.project.HidesIndex way

/-- A folder stays hidden while the project is where it is. -/
theorem Hides.of_samePlace {s' : Session} (h : s.Hides way)
    (hsame : Project.SamePlace s.project s'.project) : s'.Hides way where
  names := hsame.root ▸ h.names
  folder := by
    unfold Project.KeepsIndexIn
    rw [hsame.root, hsame.indexing]
    exact h.folder
  hidden := by
    unfold Project.HidesIndex
    rw [hsame.indexing]
    exact h.hidden

/-- **One event** puts no file below a hidden folder into the index. -/
theorem Apart.after (h : s.Apart way) (hs : s.Hides way) {event : Event}
    (hevent : ¬ event.IsVisit) :
    (s.after read event).Apart way ∧ (s.after read event).Hides way := by
  rcases s.after_or read event with ⟨host, rfl⟩ | hidle | ⟨q, now, hchange, hstored⟩
  · exact ⟨h, hs.of_samePlace (.refl _)⟩
  · refine ⟨?_, hs.of_samePlace ?_⟩
    · rw [Apart, hidle.project]
      exact h
    · rw [hidle.project]
      exact .refl _
  · refine ⟨?_, hs.of_samePlace ?_⟩
    · intro key hkey
      rw [hstored.project] at hkey
      obtain ⟨e, hget⟩ := Roster.mem_keys_iff.mp hkey
      cases Event.source_of_change? hchange hget with
      | before hget => exact h key (Roster.mem_keys_iff.mpr ⟨e, hget⟩)
      | found hscanner hf hid _ =>
          rw [← hid]
          exact hs.hidden.not_isBelow hs.folder hs.names hscanner hf
      | visited _ => exact absurd trivial hevent
    · rw [hstored.project]
      exact (Event.samePlace_of_change? hchange).trans (q.samePlace_persist now s.seen)

/-- **A whole session** puts none there. -/
theorem Apart.run (h : s.Apart way) (hs : s.Hides way) {events : List Event}
    (hevents : ∀ event ∈ events, ¬ event.IsVisit) : (s.run read events).Apart way := by
  induction events generalizing s with
  | nil => exact h
  | cons event events ih =>
      obtain ⟨hevent, hevents⟩ := List.forall_mem_cons.mp hevents
      have hafter : (s.after read event).Apart way ∧ (s.after read event).Hides way :=
        h.after hs hevent
      exact ih hafter.1 hafter.2 hevents

/-! ### A folder that is not hidden -/

/-- The project gets the lock and its scanner, and has no links and no name twice in its folder. -/
structure Surveys (s : Session) (scanner : Scanner) (entries : List (String × Entry)) : Prop where
  granted : s.isGranted = true
  scanner : s.project.scanner s.seen = .ok scanner
  root : s.seen.at? s.project.root = some (.folder entries)
  names : ∀ n ∈ s.project.root, Path.IsName n
  tree : Entry.Ruled Path.IsName (fun _ => False) (.folder entries)
  distinct : Entry.Distinct (.folder entries)

variable {scanner : Scanner} {entries : List (String × Entry)}

/-- The root of the project is a folder that is reached by plain names. -/
theorem Surveys.scanner_root (h : s.Surveys scanner entries) :
    s.seen.at? scanner.root = some (.folder entries) ∧ ".." ∉ scanner.root := by
  rw [Project.root_of_scanner h.scanner]
  exact ⟨h.root, Disk.not_mem_of_names h.names⟩

/-- After a run that was not cancelled every key is the id of a file that it has found. -/
theorem Surveys.of_mem_keys (h : s.Surveys scanner entries) {now : Number} {incremental : Bool}
    {stopAt : Option Nat}
    (hdone : NotCancelled (s.project.indexAll s.host read now incremental stopAt)) {key : String}
    (hkey : key ∈ (s.after read (.indexAll now incremental stopAt)).project.index.files.keys) :
    ∃ f ∈ scanner.scan s.seen, f.id = key := by
  rw [files_indexAll_of_scanner (acquire_of_isGranted h.granted) h.scanner hdone] at hkey
  have hfound := List.contains_iff_mem.mp (Roster.of_mem_keys_filterKeys hkey)
  rw [Project.works_eq_map, List.map_map] at hfound
  exact List.mem_map.mp hfound

/-- The id of a file that it has found, and that can be read, is a key. -/
theorem Surveys.mem_keys (h : s.Surveys scanner entries) {now : Number} {incremental : Bool}
    {stopAt : Option Nat}
    (hdone : NotCancelled (s.project.indexAll s.host read now incremental stopAt))
    {f : Scan.Found} (hf : f ∈ scanner.scan s.seen) {e : FileEntry}
    (hread : Project.readFound read s.project.root f = .ok (some e)) :
    f.id ∈ (s.after read (.indexAll now incremental stopAt)).project.index.files.keys := by
  obtain ⟨hroot, hup⟩ := h.scanner_root
  have hids : ((s.project.works (scanner.scan s.seen)).map Project.Work.id).Nodup := by
    rw [Project.works_eq_map, List.map_map]
    exact Scanner.nodup_ids_scan hroot hup h.tree h.distinct
  have hwork : s.project.workOn f ∈ s.project.works (scanner.scan s.seen) :=
    List.mem_map_of_mem hf
  have hfound : ((s.project.works (scanner.scan s.seen)).map Project.Work.id).contains f.id = true :=
    List.contains_iff_mem.mpr (List.mem_map_of_mem hwork)
  obtain ⟨left, hleft⟩ := s.project.exists_get?_applied incremental hread
  rw [files_indexAll_of_scanner (acquire_of_isGranted h.granted) h.scanner hdone, ← seen,
    Roster.mem_keys_iff]
  refine ⟨left, ?_⟩
  rw [Roster.get?_filterKeys, if_pos hfound, ← hleft]
  exact Project.Work.get?_applyAll_of_mem hids hwork

/-- **A file below the folder of the index.** It is a key after a run that was not cancelled exactly
if the folder is not hidden, and the file would be a key if it stood elsewhere. -/
theorem Surveys.mem_keys_iff (h : s.Surveys scanner entries) (hway : s.project.KeepsIndexIn way)
    {now : Number} {incremental : Bool} {stopAt : Option Nat}
    (hdone : NotCancelled (s.project.indexAll s.host read now incremental stopAt))
    {rest : List String} (hrest : rest ≠ []) {contents : Bytes}
    (hfile : s.seen.at? (s.project.root ++ (way ++ rest)) = some (.file contents)) {e : FileEntry}
    (hread : read ⟨"/", s.project.root ++ (way ++ rest)⟩ contents
      (Path.toText ⟨"", way ++ rest⟩) = .ok (some e)) :
    Path.toText ⟨"", way ++ rest⟩ ∈
        (s.after read (.indexAll now incremental stopAt)).project.index.files.keys ↔
      ¬ s.project.HidesIndex way ∧ (∀ n ∈ rest.dropLast, n ∉ scanner.excluded) ∧
        scanner.accepts (.ofPath ⟨"", way ++ rest⟩) = true ∧
        scanner.leavesOut (Path.toText ⟨"", way ++ rest⟩) = false ∧
        contents.length ≤ scanner.largestFile := by
  obtain ⟨hroot, hup⟩ := h.scanner_root
  have hinside := hfile
  rw [Scan.at?_root_append h.root] at hinside
  have hnames := (h.tree.at? hinside).1
  rw [← Project.root_of_scanner h.scanner] at hfile
  have hkey : Path.toText ⟨"", way ++ rest⟩ ∈
      (s.after read (.indexAll now incremental stopAt)).project.index.files.keys ↔
        ⟨way ++ rest, Path.toText ⟨"", way ++ rest⟩, contents⟩ ∈ scanner.scan s.seen := by
    constructor
    · intro hmem
      obtain ⟨f, hf, hid⟩ := h.of_mem_keys hdone hmem
      rwa [← Scanner.eq_of_mem_scan hroot hup h.tree h.distinct hfile hf hid]
    · intro hf
      exact h.mem_keys hdone hf hread
  rw [hkey, Scanner.mem_scan_iff hroot hup h.tree h.distinct hfile,
    Scanner.ignores_eq_false_iff hnames hrest, hway.hidesIndex_iff h.names h.scanner,
    List.forall_mem_append]
  constructor
  · rintro ⟨haccepts, ⟨⟨hfolder, hinner⟩, hscope⟩, hfits⟩
    refine ⟨?_, hinner, haccepts, hscope, hfits⟩
    rintro ⟨n, hn, hexcluded⟩
    exact hfolder n hn hexcluded
  · rintro ⟨hhides, hinner, haccepts, hscope, hfits⟩
    refine ⟨haccepts, ⟨⟨fun n hn hexcluded => ?_, hinner⟩, hscope⟩, hfits⟩
    exact hhides ⟨n, hn, hexcluded⟩

/-- **The index and its own folder.** Let the folder that settings name for the index be `way` below
the root of the project. If it is hidden, and no key is a path below it at the start, then none is
after anything that may happen in a session, on any disk, unless files are indexed one at a time. If
it is not hidden, a run of a project without links that is not cancelled treats what stands in it as
any other file: with an entry to be read from it, a file is a key exactly if it is in no excluded
folder further down, its language is accepted, no pattern or rule leaves it out, and it is not too
large. The stored index is such a file. -/
theorem index_hidden_or_indexed {start : Session} (hnames : ∀ n ∈ start.project.root, Path.IsName n)
    (hway : start.project.KeepsIndexIn way) :
    (start.project.HidesIndex way → start.Apart way → ∀ events : List Event,
        (∀ event ∈ events, ¬ event.IsVisit) → (start.run read events).Apart way) ∧
      (¬ start.project.HidesIndex way → ∀ scanner entries, start.Surveys scanner entries →
        ∀ now incremental stopAt,
        NotCancelled (start.project.indexAll start.host read now incremental stopAt) →
        ∀ rest, rest ≠ [] → ∀ contents,
        start.seen.at? (start.project.root ++ (way ++ rest)) = some (.file contents) →
        ∀ e, read ⟨"/", start.project.root ++ (way ++ rest)⟩ contents
          (Path.toText ⟨"", way ++ rest⟩) = .ok (some e) →
        (Path.toText ⟨"", way ++ rest⟩ ∈
            (start.after read (.indexAll now incremental stopAt)).project.index.files.keys ↔
          (∀ n ∈ rest.dropLast, n ∉ scanner.excluded) ∧
            scanner.accepts (.ofPath ⟨"", way ++ rest⟩) = true ∧
            scanner.leavesOut (Path.toText ⟨"", way ++ rest⟩) = false ∧
            contents.length ≤ scanner.largestFile)) := by
  constructor
  · intro hhidden hapart events hevents
    exact hapart.run ⟨hnames, hway, hhidden⟩ hevents
  · intro hshown scanner entries hsurveys now incremental stopAt hdone rest hrest contents hfile e
      hread
    rw [hsurveys.mem_keys_iff hway hdone hrest hfile hread]
    exact and_iff_right hshown

section Deep

/-- A disk with an empty project. -/
def emptyDisk : Disk := ⟨[("p", .folder [])]⟩

/-- The empty project, just opened, with its index in a folder of its own. -/
def emptyWith (folder : String) : Session where
  project := .openWith emptyDisk ["p"] { indexing := { folder } } none 0
  host := { disk := emptyDisk }

/-- The project with its index two folders down, after a run. -/
def deep : Session := (emptyWith "a/b").after (parseFile bareGrammars) (.indexAll .zero true none)

/-- The folder of the project then, around the stored index. -/
def deepFolder : List (String × Entry) :=
  [("a", .folder [("b", .folder [("index.lock", .file []),
    ("index.json", .file (Utf8.bytes deep.project.index.stored))])])]

/-- The scanner of the project. -/
def deepScanner : Scanner :=
  { root := ["p"], excluded := Settings.excludedFolders ++ ["a/b"] }

theorem deep_surveys : deep.Surveys deepScanner deepFolder where
  granted := by decide +kernel
  scanner := rfl
  root := rfl
  names := by decide +kernel
  tree := Entry.ruled_of_isPlain _ (by decide)
  distinct := Entry.distinct_of_isDistinct _ (by decide)

/-- The characters of a stored index. -/
theorem bytes_stored (index : ProjectIndex) :
    Utf8.bytes index.stored = Utf8.encode (Json.writeValue Json.indented 0 index.toJson) := by
  rw [Utf8.bytes, ProjectIndex.stored, Json.render, String.toList_ofList]

theorem deep_parsed : ∃ e, parseFile bareGrammars ⟨"/", ["p", "a", "b", "index.json"]⟩
    (Utf8.bytes deep.project.index.stored) "a/b/index.json" = .ok (some e) := by
  have hparsed : (parseFile bareGrammars ⟨"/", ["p", "a", "b", "index.json"]⟩
      (Utf8.bytes deep.project.index.stored) "a/b/index.json").toOption.join.isSome = true := by
    rw [bytes_stored]
    decide +kernel
  cases hread : parseFile bareGrammars ⟨"/", ["p", "a", "b", "index.json"]⟩
      (Utf8.bytes deep.project.index.stored) "a/b/index.json" with
  | error f =>
      rw [hread] at hparsed
      cases hparsed
  | ok read =>
      rw [hread] at hparsed
      obtain ⟨e, rfl⟩ := Option.isSome_iff_exists.mp hparsed
      exact ⟨e, rfl⟩

/-- An index two folders down is indexed by the next run. One folder down it is not, however many runs
follow. -/
theorem index_hidden_or_indexed_deep :
    deep.project.KeepsIndexIn ["a", "b"] ∧ deep.project.index.files.keys = [] ∧
      "a/b/index.json" ∈ (deep.after (parseFile bareGrammars)
        (.indexAll .zero true none)).project.index.files.keys ∧
      ∀ runs : List (Number × Bool), ((emptyWith "idx").run (parseFile bareGrammars)
        (runs.map fun r => .indexAll r.1 r.2 none)).Apart ["idx"] := by
  have hway : deep.project.KeepsIndexIn ["a", "b"] := by decide +kernel
  refine ⟨hway, by decide +kernel, ?_, ?_⟩
  · obtain ⟨e, hread⟩ := deep_parsed
    have hfits : ((Utf8.bytes deep.project.index.stored).length : Int) ≤
        deepScanner.largestFile := by
      rw [bytes_stored]
      decide +kernel
    exact ((index_hidden_or_indexed (by decide +kernel) hway).2 (by decide +kernel) deepScanner
      deepFolder deep_surveys .zero true none (notCancelled_indexAll _ _ _) ["index.json"] (by simp)
      _ rfl e hread).mpr ⟨by simp, by decide +kernel, by decide +kernel, hfits⟩
  · intro runs
    refine (index_hidden_or_indexed (by decide) (by decide +kernel)).1 (by decide +kernel) ?_ _ ?_
    · intro key hkey
      cases hkey
    · intro event hevent
      obtain ⟨r, -, rfl⟩ := List.mem_map.mp hevent
      exact id

end Deep

end Session

end Concordance
