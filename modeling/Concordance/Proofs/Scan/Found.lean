import Concordance.Proofs.Disk.Straight
import Concordance.Proofs.Scan.Walk

/-!
# What a scan finds

A file is found if a walk has met it and it was judged worth it (`Scan.Accepted`). On a disk without
links a file that is found stands on the way on which it was met, and its id is that way as a text
(`Linkless.stands_of_mem_scan`).

Files whose suffix no language claims are not found; drafts and lock files are such files
(`Language.ofPath_draftOf`, `Language.ofPath_lockFile`).
-/

namespace Concordance

namespace Scan

variable {P : String → Prop} {L : Path → Prop} {passesBy : String → Bool}

/-- **A walk** goes along the names of folders and files. -/
theorem names_of_walk {e : Entry} (he : e.Ruled P L) :
    ∀ w ∈ walk passesBy e, ∀ n ∈ w, P n := by
  induction he with
  | file contents => exact fun w hw => absurd hw List.not_mem_nil
  | link h => exact fun w hw => absurd hw List.not_mem_nil
  | @folder entries names inner ih =>
      intro w hw
      rcases mem_walk_folder.mp hw with
        ⟨name, e, hmem, -, rfl⟩ | ⟨name, folder, rest, hmem, -, hrest, rfl⟩
      · exact List.forall_mem_singleton.mpr (names _ hmem)
      · exact List.forall_mem_cons.mpr ⟨names _ hmem, ih _ hmem rest hrest⟩

/-- What is known of a file that a scan finds. -/
structure Accepted (s : Scanner) (d : Disk) (f : Found) : Prop where
  met : ∃ e, d.at? s.root = some e ∧ f.way ∈ walk s.excluded.contains e
  accepts : s.accepts (.ofPath ⟨"", f.way⟩) = true
  read : d.read? (s.root ++ f.way) = some f.contents
  id : s.id? d (s.root ++ f.way) = some f.id
  inScope : s.ignores f.id = false

/-- **When a file is found**, once a walk has met it. -/
theorem judge_eq_some_iff {s : Scanner} {d : Disk} {way : List String} {f : Found} :
    judge s d way = some f ↔
      f.way = way ∧ s.accepts (.ofPath ⟨"", way⟩) = true ∧
        d.read? (s.root ++ way) = some f.contents ∧ s.id? d (s.root ++ way) = some f.id ∧
        s.ignores f.id = false ∧ f.contents.length ≤ s.largestFile := by
  unfold judge
  dsimp only
  constructor
  · intro h
    split at h
    · next haccepts =>
      obtain ⟨contents, hread, h⟩ := Option.bind_eq_some_iff.mp h
      obtain ⟨id, hid, h⟩ := Option.bind_eq_some_iff.mp h
      split at h
      · cases h
      · next hkept =>
        cases h
        rw [Bool.or_eq_true, not_or, Bool.not_eq_true, decide_eq_true_eq, Int.not_lt] at hkept
        exact ⟨rfl, haccepts, hread, hid, hkept⟩
    · cases h
  · rintro ⟨rfl, haccepts, hread, hid, hscope, hfits⟩
    rw [if_pos haccepts, hread, hid]
    have hkept : ¬ (s.ignores f.id || decide (s.largestFile < f.contents.length)) = true := by
      rw [hscope, Bool.false_or, decide_eq_true_eq]
      exact Int.not_lt.mpr hfits
    exact if_neg hkept

/-- What a scan finds was accepted. -/
theorem accepted_of_mem {s : Scanner} {d : Disk} {f : Found} (h : f ∈ s.scan d) :
    Accepted s d f := by
  unfold Scanner.scan at h
  split at h
  · next e he =>
    obtain ⟨way, hway, hjudge⟩ := List.mem_filterMap.mp h
    obtain ⟨rfl, haccepts, hread, hid, hscope, -⟩ := judge_eq_some_iff.mp hjudge
    exact ⟨⟨e, he, hway⟩, haccepts, hread, hid, hscope⟩
  · cases h

end Scan

/-- **What an id is.** A path that leads somewhere has as its id the way from the root of the project
to there. -/
theorem Scanner.id?_eq_some_iff {s : Scanner} {d : Disk} {names way : List String} {id : String}
    (hway : d.locate names = .ok way) :
    s.id? d names = some id ↔ ∃ parts, way = s.root ++ parts ∧ id = Path.toText ⟨"", parts⟩ := by
  rw [id?, Disk.realWay_of_locate hway, Option.map_eq_some_iff]
  exact exists_congr fun parts => and_congr Path.below?_eq_some_iff eq_comm

/-! ### On a disk without links -/

/-- What stands on the way of a file that is found on a disk without links. -/
structure Scan.Stands (root : List String) (d : Disk) (f : Found) : Prop where
  names : ∀ n ∈ root ++ f.way, Path.IsName n
  folder : ∃ inner, d.at? root = some (.folder inner)
  file : d.at? (root ++ f.way) = some (.file f.contents)
  id : f.id = Path.toText ⟨"", f.way⟩

/-- The text of an id writes the way from the root of the project. -/
theorem Scan.Stands.ofString_id {root : List String} {d : Disk} {f : Found}
    (h : Stands root d f) : Path.ofString f.id = ⟨"", f.way⟩ := by
  rw [h.id]
  exact Path.ofString_toText fun n hn => h.names n (List.mem_append_right _ hn)

/-- Files that stand on one way are one file. -/
theorem Scan.Stands.eq_of_way {root : List String} {d : Disk} {f g : Found}
    (hf : Stands root d f) (hg : Stands root d g) (hway : g.way = f.way) : g = f := by
  have hcontents : g.contents = f.contents := by
    have hfile := hg.file
    rw [hway, hf.file] at hfile
    exact (Entry.file.inj (Option.some.inj hfile)).symm
  have hid : g.id = f.id := by
    rw [hg.id, hf.id, hway]
  cases f
  cases g
  cases hway
  cases hcontents
  cases hid
  rfl

/-- So are files with one id. -/
theorem Scan.Stands.eq_of_id {root : List String} {d : Disk} {f g : Found}
    (hf : Stands root d f) (hg : Stands root d g) (hid : g.id = f.id) : g = f := by
  apply hf.eq_of_way hg
  have hpath := congrArg Path.ofString hid
  rw [hf.ofString_id, hg.ofString_id] at hpath
  exact (Path.mk.inj hpath).2

/-- The id of a file on a way from the root of the project is that way as a text. -/
theorem Scanner.id?_of_at? {s : Scanner} {d : Disk} {way : List String}
    (hup : ".." ∉ s.root ++ way) {contents : Bytes}
    (hfile : d.at? (s.root ++ way) = some (.file contents)) :
    s.id? d (s.root ++ way) = some (Path.toText ⟨"", way⟩) :=
  (id?_eq_some_iff (Disk.locate_of_at? hup (by simp) hfile)).mpr ⟨way, rfl, rfl⟩

/-- **Where a file is found.** -/
theorem Disk.Linkless.stands_of_mem_scan {d : Disk} (hd : d.Linkless) {s : Scanner}
    {f : Scan.Found} (h : f ∈ s.scan d) : Scan.Stands s.root d f := by
  obtain ⟨⟨e, he, hmet⟩, -, hread, hid, -⟩ := Scan.accepted_of_mem h
  obtain ⟨hroot, hruled⟩ := Entry.Ruled.at? hd he
  have hway := Scan.names_of_walk hruled f.way hmet
  have hnames : ∀ n ∈ s.root ++ f.way, Path.IsName n := by
    intro n hn
    rcases List.mem_append.mp hn with hn | hn
    · exact hroot n hn
    · exact hway n hn
  have hup := Disk.not_mem_of_names hnames
  have hfile := hd.plain.at?_of_read? hup hread
  refine ⟨hnames, ?_, hfile, ?_⟩
  · cases e with
    | folder inner => exact ⟨inner, he⟩
    | file contents => cases hmet
    | link target => cases hmet
  · rw [Scanner.id?_of_at? hup hfile] at hid
    exact (Option.some.inj hid).symm

/-! ### Suffixes that no language claims -/

/-- The last dot of a text stands in one place. -/
theorem eq_of_append_dot {stem stem' ending ending' : List Char} (h : '.' ∉ ending)
    (h' : '.' ∉ ending') (heq : stem ++ '.' :: ending = stem' ++ '.' :: ending') :
    ending = ending' := by
  have hother : ∀ {cs : List Char}, '.' ∉ cs → ∀ c ∈ cs, ¬ c = '.' := fun hcs c hc heq =>
    hcs (heq ▸ hc)
  exact Chars.eq_of_append_mark (· = '.') rfl rfl (hother h) (hother h') heq

/-- A file with a suffix that no language claims is of no known language. -/
theorem Language.ofPath_eq_unknown {path : Path} (stem ending : List Char) (hdot : '.' ∉ ending)
    (hname : path.name.toList = stem ++ '.' :: ending)
    (hunknown : ofExtension (.ofList ('.' :: ending)) = .unknown) : ofPath path = .unknown := by
  rw [ofPath, Path.suffix]
  rcases Path.splitSuffix_cases path.name with hwhole | ⟨stem', ending', hdot', hname', hsplit⟩
  · rw [hwhole]
    exact (by decide : ofExtension "" = .unknown)
  · rw [hsplit, eq_of_append_dot hdot' hdot (hname'.symm.trans hname)]
    exact hunknown

/-- What is found does not stand in the place of a file of no known language. -/
theorem Scan.Accepted.ne_place {s : Scanner} {d : Disk} {f : Found} (h : Accepted s d f)
    {other : Path} (hunknown : Language.ofPath other = .unknown) (folder : List String) :
    s.root ++ f.way ≠ folder ++ [other.name] := by
  intro heq
  have haccepts := h.accepts
  have hlanguage : Language.ofPath ⟨"", f.way⟩ = .unknown := by
    rcases List.eq_nil_or_concat' f.way with hnil | ⟨before, name, hway⟩
    · rw [hnil]
      decide
    · have hlast := congrArg List.getLast? heq
      rw [hway, ← List.append_assoc, List.getLast?_concat, List.getLast?_concat] at hlast
      have hname : Path.name ⟨"", f.way⟩ = other.name := by
        rw [Path.name, hway, List.getLast?_concat]
        exact Option.some.inj hlast
      rw [← hunknown, Language.ofPath, Language.ofPath, Path.suffix, Path.suffix, hname]
  rw [hlanguage] at haccepts
  cases haccepts

/-- The draft of an index is in no known language. -/
theorem Language.ofPath_draftOf (file : Path) :
    ofPath (ProjectIndex.draftOf file) = .unknown := by
  refine ofPath_eq_unknown (file.stem.toList ++ ".json".toList) "tmp".toList (by decide) ?_
    (by decide)
  rw [ProjectIndex.draftOf, Path.name_withSuffix, String.toList_append, List.append_assoc]
  rfl

/-- Neither is its lock file. -/
theorem Language.ofPath_lockFile (file : Path) : ofPath (lockFile file) = .unknown := by
  refine ofPath_eq_unknown file.stem.toList "lock".toList (by decide) ?_ (by decide)
  rw [lockFile, Path.name_withSuffix, String.toList_append]
  rfl

end Concordance
