import Concordance.Graph.Resolve
import Concordance.Proofs.Path.Plain

/-!
# Relative imports in a project and one folder down

A source that begins with a dot is taken from the folder of the importing file and leads somewhere
from there (`aim?`), unless it climbs above the root. If the whole project is put into a folder, the
source leads to the same place in that folder (`aim?_append`), and so the import should resolve to the
same file in it.

It does, with one exception (`resolve?_under`). The root itself is written as a single dot, not as the
empty path. A dot with a slash and the name of an index file behind it is the identifier of no file,
so a source that leads to the root misses the index file there; but a dot with an ending behind it may
be a file, which has nothing to do with the source.
-/

namespace Concordance

namespace Graph

/-- An import can only resolve to a known file. -/
theorem mem_of_resolve? {source importer target : String} {known : List String}
    (h : resolve? source importer known = some target) : target ∈ known := by
  have hfound := List.find?_some h
  exact List.contains_iff_mem.mp hfound

/-! ### Where a relative source leads -/

/-- Goes along names and double dots from a folder; above the root there is nothing. -/
def goFrom? (folder : List String) : List String → Option (List String)
  | [] => some folder
  | n :: way =>
    if n = ".." then if folder = [] then none else goFrom? folder.dropLast way
    else goFrom? (folder ++ [n]) way

/-- Where a source that begins with a dot leads from a folder, if it does not climb above the root. With
a slash behind its first dots it is a path; otherwise every dot but the first goes up, and what follows
is a name in which dots part folders. -/
def aim? (folder : List String) (source : String) : Option Path :=
  let cs := source.toList
  if ['.', '/'].isPrefixOf cs || ['.', '.', '/'].isPrefixOf cs then
    (goFrom? folder (Path.namesOf cs)).map (Path.mk "")
  else
    let dots := (cs.takeWhile (· == '.')).length
    (goFrom? folder (List.replicate (dots - 1) "..")).map fun start =>
      (Path.mk "" start).join (.ofString (dotsToSlashes (cs.drop dots)))

variable {folder way target : List String} {source importer : String} {p : Path}

/-- The two ways in which a source leads somewhere. -/
theorem aim?_eq_some_iff :
    aim? folder source = some p ↔
      ((['.', '/'].isPrefixOf source.toList || ['.', '.', '/'].isPrefixOf source.toList) = true ∧
          ∃ target, goFrom? folder (Path.ofString source).parts = some target ∧ ⟨"", target⟩ = p) ∨
        (¬ (['.', '/'].isPrefixOf source.toList || ['.', '.', '/'].isPrefixOf source.toList) = true ∧
          ∃ start,
            goFrom? folder
              (List.replicate ((source.toList.takeWhile (· == '.')).length - 1) "..") = some start ∧
            (Path.mk "" start).join (.ofString (dotsToSlashes
              (source.toList.drop (source.toList.takeWhile (· == '.')).length))) = p) := by
  unfold aim?
  dsimp only
  split
  · next hpath => simp [hpath, Path.ofString]
  · next hpath => simp [hpath]

/-- The same way from the same folder further down. -/
theorem goFrom?_append (d : List String) (h : goFrom? folder way = some target) :
    goFrom? (d ++ folder) way = some (d ++ target) := by
  induction way generalizing folder with
  | nil =>
      cases h
      rfl
  | cons n way ih =>
      unfold goFrom? at h ⊢
      split at h
      · next hup =>
        split at h
        · cases h
        · next hne =>
          rw [if_pos hup, if_neg (by simp [hne]), List.dropLast_append_of_ne_nil hne]
          exact ih h
      · next hname =>
        rw [if_neg hname, List.append_assoc]
        exact ih h

/-- **A source leads to the same place** if the whole project is put into a folder. -/
theorem aim?_append (d : List String) (h : aim? folder source = some p) :
    aim? (d ++ folder) source = some ((Path.mk "" d).join p) := by
  rcases aim?_eq_some_iff.mp h with ⟨hpath, target, htarget, rfl⟩ | ⟨hpath, start, hstart, rfl⟩
  · exact aim?_eq_some_iff.mpr (.inl ⟨hpath, d ++ target, goFrom?_append d htarget, rfl⟩)
  · exact aim?_eq_some_iff.mpr
      (.inr ⟨hpath, d ++ start, goFrom?_append d hstart, (Path.join_join d start _).symm⟩)

/-- Working off double dots goes the same way. -/
theorem foldl_normalStep (hfolder : ".." ∉ folder) (h : goFrom? folder way = some target) :
    way.foldl (Path.normalStep false) folder.reverse = target.reverse := by
  induction way generalizing folder with
  | nil =>
      cases h
      rfl
  | cons n way ih =>
      unfold goFrom? at h
      rw [List.foldl_cons]
      split at h
      · next hup =>
        split at h
        · cases h
        · next hne =>
          obtain ⟨before, last, rfl⟩ := (List.eq_nil_or_concat' folder).resolve_left hne
          have hlast : last ≠ ".." := fun heq => hfolder (by simp [heq])
          have hbefore : ".." ∉ before := fun hmem => hfolder (List.mem_append_left _ hmem)
          have hback : Path.normalStep false (before ++ [last]).reverse n = before.reverse := by
            rw [List.reverse_append, List.reverse_singleton, List.singleton_append, hup]
            unfold Path.normalStep
            rw [if_neg (by decide)]
            exact if_neg (by simpa using hlast)
          rw [List.dropLast_concat] at h
          rw [hback]
          exact ih hbefore h
      · next hname =>
        have hon : Path.normalStep false folder.reverse n = (folder ++ [n]).reverse := by
          rw [List.reverse_append]
          exact if_pos (by simpa using hname)
        rw [hon]
        exact ih (by simp [hfolder, Ne.symm hname]) h

/-- Steps up lead to the folder that many names above. -/
theorem upFrom_eq {n : Nat} (h : goFrom? folder (List.replicate n "..") = some target) :
    upFrom ⟨"", folder⟩ n = ⟨"", target⟩ := by
  induction n generalizing folder with
  | zero =>
      cases h
      rfl
  | succ n ih =>
      rw [List.replicate_succ, goFrom?, if_pos rfl] at h
      split at h
      · cases h
      · exact ih h

/-- A path from a folder of names, its double dots worked off. -/
theorem normalized_join {q : Path} (hfolder : ".." ∉ folder) (hroot : q.root = "")
    (h : goFrom? folder q.parts = some target) :
    ((Path.mk "" folder).join q).normalized = ⟨"", target⟩ := by
  have hjoin : (Path.mk "" folder).join q = ⟨"", folder ++ q.parts⟩ := by
    simp [Path.join, Path.isAbsolute, hroot]
  have hnames : (Path.mk "" folder).normalized = ⟨"", folder⟩ := Path.normalized_of_notMem hfolder
  have hpushed : folder.foldl (Path.normalStep false) [] = folder.reverse :=
    List.reverse_eq_iff.mp (congrArg Path.parts hnames)
  have hway : (folder ++ q.parts).foldl (Path.normalStep false) [] = target.reverse := by
    rw [List.foldl_append, hpushed]
    exact foldl_normalStep hfolder h
  rw [hjoin]
  exact congrArg (Path.mk "") (List.reverse_eq_iff.mpr hway)

/-- **The one candidate** of a relative source is the place where it leads. -/
theorem candidates_eq (hfolder : ".." ∉ folder) (hdot : Text.startsWith "." source = true)
    (h : aim? folder source = some p) : candidates source ⟨"", folder⟩ = [p.toText] := by
  have hfirst : ['.'].isPrefixOf source.toList = true := hdot
  unfold candidates
  dsimp only
  rcases aim?_eq_some_iff.mp h with ⟨hpath, target, htarget, rfl⟩ | ⟨hpath, start, hstart, rfl⟩
  · have hroot : (Path.ofString source).root = "" := by
      obtain ⟨rest, hrest⟩ := List.isPrefixOf_iff_prefix.mp hfirst
      unfold Path.ofString Path.rootOf
      rw [← hrest]
      rfl
    rw [if_pos hpath, pathCandidate, normalized_join hfolder hroot htarget]
  · rw [if_neg hpath, if_pos hfirst, dottedCandidate, upFrom_eq hstart]
    split
    · next hempty =>
      have hnothing : Path.ofString "" = ⟨"", []⟩ := by decide
      rw [String.isEmpty_iff.mp hempty, hnothing]
      simp [Path.join, Path.isAbsolute]
    · rfl

/-- What holds of the names of a folder and of a way holds of those that the way comes to. -/
theorem forall_of_goFrom? {P : String → Prop} (hfolder : ∀ n ∈ folder, P n) (hway : ∀ n ∈ way, P n)
    (h : goFrom? folder way = some target) : ∀ n ∈ target, P n := by
  induction way generalizing folder with
  | nil =>
      cases h
      exact hfolder
  | cons m way ih =>
      obtain ⟨hm, hway⟩ := List.forall_mem_cons.mp hway
      unfold goFrom? at h
      split at h
      · split at h
        · cases h
        · exact ih (fun n hn => hfolder n (List.dropLast_subset folder hn)) hway h
      · exact ih (List.forall_mem_append.mpr ⟨hfolder, List.forall_mem_singleton.mpr hm⟩) hway h

/-- Where a source leads to consists of parts. -/
theorem isPart_of_aim? (hfolder : ∀ n ∈ folder, Path.IsName n) (h : aim? folder source = some p)
    {n : String} (hn : n ∈ p.parts) : Path.IsPart n := by
  have hparts : ∀ m ∈ folder, Path.IsPart m := fun m hm => (hfolder m hm).isPart
  have hwritten : ∀ s, ∀ m ∈ (Path.ofString s).parts, Path.IsPart m :=
    fun _ _ hm => Path.isPart_of_mem_ofString hm
  rcases aim?_eq_some_iff.mp h with ⟨-, target, htarget, rfl⟩ | ⟨-, start, hstart, rfl⟩
  · exact forall_of_goFrom? hparts (hwritten source) htarget n hn
  · have hups : ∀ m ∈ List.replicate ((source.toList.takeWhile (· == '.')).length - 1) "..",
        Path.IsPart m := by
      intro m hm
      rw [List.eq_of_mem_replicate hm]
      exact ⟨by decide, by decide⟩
    unfold Path.join at hn
    split at hn
    · exact hwritten _ n hn
    · rcases List.mem_append.mp hn with hn | hn
      · exact forall_of_goFrom? hparts hups hstart n hn
      · exact hwritten _ n hn

/-- A source leads to a relative path, or to one whose text begins with a slash. -/
theorem relative_or_slash_of_aim? (h : aim? folder source = some p) :
    p.root = "" ∨ ∃ tail, p.toText.toList = '/' :: tail := by
  rcases aim?_eq_some_iff.mp h with ⟨-, target, -, rfl⟩ | ⟨-, start, -, rfl⟩
  · exact .inl rfl
  · unfold Path.join
    split
    · exact Path.relative_or_slash _
    · exact .inl rfl

/-! ### The files of a candidate -/

/-- The text of a path does not begin with a dot and a slash. -/
theorem dropHere_toText {parts : List String} (h : ∀ n ∈ parts, Path.IsPart n) :
    dropHere (Path.toText ⟨"", parts⟩) = Path.toText ⟨"", parts⟩ := by
  apply if_neg
  intro hhere
  cases parts with
  | nil => exact absurd hhere (by decide)
  | cons n parts =>
      obtain ⟨tail, htail⟩ := List.isPrefixOf_iff_prefix.mp hhere
      exact Path.toText_ne_dot (h n List.mem_cons_self) parts (.inr rfl) htail.symm

/-- The files of a candidate continue it. -/
theorem exists_append_of_mem_filesFor {c f : String} (h : f ∈ filesFor c) :
    ∃ ending, f = dropHere c ++ ending := by
  rcases List.mem_cons.mp h with rfl | h
  · exact ⟨"", String.append_empty.symm⟩
  · rcases List.mem_append.mp h with h | h
    · obtain ⟨ext, -, rfl⟩ := List.mem_map.mp h
      exact ⟨ext, rfl⟩
    · obtain ⟨file, -, rfl⟩ := List.mem_map.mp h
      exact ⟨"/" ++ file, String.append_assoc ..⟩

section Known

variable {known : List String} (hknown : ∀ k ∈ known, Path.IsPlain k)

include hknown

/-- A candidate that begins with a slash means none of the known files. -/
theorem find?_filesFor_of_slash {c : String} {tail : List Char} (hc : c.toList = '/' :: tail) :
    (filesFor c).find? (known.contains ·) = none := by
  have hkept : dropHere c = c := by
    apply if_neg
    intro hhere
    obtain ⟨rest, hrest⟩ := List.isPrefixOf_iff_prefix.mp hhere
    rw [hc] at hrest
    exact absurd (List.cons.inj hrest).1 (by decide)
  refine List.find?_eq_none.mpr fun f hf hmem => ?_
  obtain ⟨ending, rfl⟩ := exists_append_of_mem_filesFor hf
  have htext : (dropHere c ++ ending).toList = '/' :: (tail ++ ending.toList) := by
    rw [hkept, String.toList_append, hc, List.cons_append]
  exact (hknown _ (List.contains_iff_mem.mp hmem)).ne_slash _ htext

/-- Of the files of the root, only those with an ending behind the dot can be known. -/
theorem find?_filesFor_dot :
    (filesFor ".").find? (known.contains ·) =
      (Language.allExtensions.map ("." ++ ·)).find? (known.contains ·) := by
  have hdot : ¬ known.contains "." = true :=
    fun hmem => (hknown _ (List.contains_iff_mem.mp hmem)).ne_dot (.inl rfl) rfl
  have hindex : (indexFiles.map ("." ++ "/" ++ ·)).find? (known.contains ·) = none := by
    refine List.find?_eq_none.mpr fun f hf hmem => ?_
    obtain ⟨file, -, rfl⟩ := List.mem_map.mp hf
    have htext : ("." ++ "/" ++ file).toList = '.' :: '/' :: file.toList := by simp
    exact (hknown _ (List.contains_iff_mem.mp hmem)).ne_dot (.inr rfl) htext
  have hkept : dropHere "." = "." := by decide
  rw [filesFor, hkept, List.find?_cons_of_neg hdot, List.find?_append, hindex,
    Option.or_none]

end Known

section Moved

variable {d : List String} (hne : d ≠ []) (hd : ∀ n ∈ d, Path.IsName n)

/-- An entry is known in the folder exactly if it was known. -/
theorem contains_under (d : String) (known : List String) (k : String) :
    (known.map (Path.under d)).contains (Path.under d k) = known.contains k := by
  have hinj : Function.Injective (Path.under d) := fun _ _ heq => String.append_right_inj _ |>.mp heq
  rw [Bool.eq_iff_iff, List.contains_iff_mem, List.contains_iff_mem, List.mem_map_of_injective hinj]

/-- The known file of some, one folder down. -/
theorem find?_under (d : String) (known files : List String) :
    (files.map (Path.under d)).find? ((known.map (Path.under d)).contains ·) =
      (files.find? (known.contains ·)).map (Path.under d) := by
  rw [List.find?_map]
  congr 2
  funext f
  exact contains_under d known f

/-- What continues the name of a folder without a slash does not lie in it. -/
theorem notMem_under (d : String) (known : List String) {ending : String}
    (h : ending.toList.head? ≠ some '/') : d ++ ending ∉ known.map (Path.under d) := by
  intro hmem
  obtain ⟨k, -, heq⟩ := List.mem_map.mp hmem
  rw [Path.under, String.append_assoc, String.append_right_inj] at heq
  exact h (by simp [← heq])

/-- Every extension begins with a dot. -/
theorem head?_of_mem_allExtensions {ext : String} (h : ext ∈ Language.allExtensions) :
    ext.toList.head? = some '.' := by
  have hall : ∀ e ∈ Language.known.flatMap Language.extensions, e.toList.head? = some '.' := by
    decide +kernel
  exact hall ext (List.mem_mergeSort.mp h)

include hne hd

/-- The files of a path with parts, one folder down. -/
theorem filesFor_under {target : List String} (htarget : target ≠ [])
    (hparts : ∀ n ∈ target, Path.IsPart n) :
    filesFor (Path.toText ⟨"", d ++ target⟩) =
      (filesFor (Path.toText ⟨"", target⟩)).map (Path.under ("/".intercalate d)) := by
  have hboth : ∀ n ∈ d ++ target, Path.IsPart n :=
    List.forall_mem_append.mpr ⟨fun n hn => (hd n hn).isPart, hparts⟩
  have htext : Path.toText ⟨"", d ++ target⟩ =
      Path.under ("/".intercalate d) (Path.toText ⟨"", target⟩) := by
    rw [Path.toText_of_ne_nil (by simp [hne]), Path.toText_of_ne_nil htarget,
      String.intercalate_append_of_ne_nil hne htarget, Path.under]
  rw [filesFor, filesFor, dropHere_toText hboth, dropHere_toText hparts, htext]
  simp [Path.under, Function.comp_def, String.append_assoc]

/-- Of the files of a folder, only its index files can be known in it. -/
theorem find?_filesFor_folder (known : List String) :
    (filesFor (Path.toText ⟨"", d⟩)).find? ((known.map (Path.under ("/".intercalate d))).contains ·) =
      (indexFiles.find? (known.contains ·)).map (Path.under ("/".intercalate d)) := by
  have hkept : dropHere (Path.toText ⟨"", d⟩) = "/".intercalate d := by
    rw [dropHere_toText fun n hn => (hd n hn).isPart, Path.toText_of_ne_nil hne]
  generalize "/".intercalate d = folder at hkept ⊢
  have hfolder : ¬ (known.map (Path.under folder)).contains folder = true := by
    intro hmem
    have hnot : folder ++ "" ∉ known.map (Path.under folder) :=
      notMem_under folder known (by decide)
    rw [String.append_empty] at hnot
    exact hnot (List.contains_iff_mem.mp hmem)
  have hextensions : (Language.allExtensions.map (folder ++ ·)).find?
      ((known.map (Path.under folder)).contains ·) = none := by
    refine List.find?_eq_none.mpr fun f hf hmem => ?_
    obtain ⟨ext, hext, rfl⟩ := List.mem_map.mp hf
    have hhead : ext.toList.head? ≠ some '/' := by
      rw [head?_of_mem_allExtensions hext]
      decide
    exact notMem_under folder known hhead (List.contains_iff_mem.mp hmem)
  rw [filesFor, hkept, List.find?_cons_of_neg hfolder, List.find?_append, hextensions, Option.none_or]
  exact find?_under folder known indexFiles

end Moved

/-- A relative source is looked up where it leads. -/
theorem resolve?_eq_find? {known : List String}
    (himporter : (Path.ofString importer).parent = ⟨"", folder⟩)
    (hfolder : ∀ n ∈ folder, Path.IsName n) (hdot : Text.startsWith "." source = true)
    (haim : aim? folder source = some p) :
    resolve? source importer known = (filesFor p.toText).find? (known.contains ·) := by
  have hup : ".." ∉ folder := fun hmem => (hfolder ".." hmem).2.2.1 rfl
  rw [resolve?, himporter, candidates_eq hup hdot haim, List.flatMap_singleton]

/-- **Relative imports do not depend on where the project sits, unless they lead to its root.** Let a
source that begins with a dot be imported in a file of a project, and let it not climb above the root.
If the project is put into a folder, the import resolves to the same file in that folder, or to none
again; provided that the source does not lead to the root itself.

A source that leads to the root never resolves to an index file that stands there, only to a file whose
name is a dot and an ending, whereas in the folder it resolves to the first index file and to nothing
else. -/
theorem resolve?_under {d i source : String} {known : List String} {p : Path} (hd : Path.IsPlain d)
    (hi : Path.IsPlain i) (hknown : ∀ k ∈ known, Path.IsPlain k)
    (hdot : Text.startsWith "." source = true)
    (haim : aim? (Path.ofString i).parent.parts source = some p) :
    (p ≠ ⟨"", []⟩ →
      resolve? source (Path.under d i) (known.map (Path.under d)) =
        (resolve? source i known).map (Path.under d)) ∧
      (p = ⟨"", []⟩ →
        resolve? source i known =
            (Language.allExtensions.map ("." ++ ·)).find? (known.contains ·) ∧
          resolve? source (Path.under d i) (known.map (Path.under d)) =
            (indexFiles.find? (known.contains ·)).map (Path.under d)) := by
  obtain ⟨folders, hne, hnames, rfl⟩ := hd
  obtain ⟨hparent, hfolder⟩ := hi.parent_eq
  have hboth : ∀ n ∈ folders ++ (Path.ofString i).parent.parts, Path.IsName n :=
    List.forall_mem_append.mpr ⟨hnames, hfolder⟩
  rw [resolve?_eq_find? hparent hfolder hdot haim,
    resolve?_eq_find? (hi.parent_under hne hnames) hboth hdot (aim?_append folders haim)]
  constructor
  · intro hp
    by_cases hroot : p.root = ""
    · obtain ⟨root, target⟩ := p
      obtain rfl : root = "" := hroot
      have htarget : target ≠ [] := fun hnil => hp (by rw [hnil])
      have hmoved : (Path.mk "" folders).join ⟨"", target⟩ = ⟨"", folders ++ target⟩ := rfl
      rw [hmoved, filesFor_under hne hnames htarget fun n hn => isPart_of_aim? hfolder haim hn]
      exact find?_under _ known _
    · -- Behind three dots a slash makes the rest absolute, and no known file is.
      obtain ⟨tail, htail⟩ := (relative_or_slash_of_aim? haim).resolve_left hroot
      have hmoved : (Path.mk "" folders).join p = p := if_pos (by simpa [Path.isAbsolute] using hroot)
      have hplain : ∀ k ∈ known.map (Path.under ("/".intercalate folders)), Path.IsPlain k :=
        List.forall_mem_map.mpr fun k hk => Path.isPlain_under (hknown k hk) hne hnames
      rw [hmoved, find?_filesFor_of_slash hknown htail, find?_filesFor_of_slash hplain htail]
      rfl
  · rintro rfl
    have hmoved : (Path.mk "" folders).join ⟨"", []⟩ = ⟨"", folders⟩ :=
      congrArg (Path.mk "") (List.append_nil folders)
    rw [hmoved]
    exact ⟨find?_filesFor_dot hknown, find?_filesFor_folder hne hnames known⟩

/-- In the file `p/a` of a project with an index file and a module `b`, two dots lead to the root and
miss the index file, but not in the project one folder down. Two dots and `b` find the module in both. -/
theorem resolve?_under_missing :
    resolve? ".." "p/a" ["__init__.py", "b"] = none ∧
      resolve? ".." "d/p/a" ["d/__init__.py", "d/b"] = some "d/__init__.py" ∧
      resolve? "..b" "p/a" ["__init__.py", "b"] = some "b" ∧
      resolve? "..b" "d/p/a" ["d/__init__.py", "d/b"] = some "d/b" := by
  have hd : Path.IsPlain "d" := ⟨["d"], by decide, by decide, by decide⟩
  have hi : Path.IsPlain "p/a" := ⟨["p", "a"], by decide, by decide, by decide +kernel⟩
  have hknown : ∀ k ∈ ["__init__.py", "b"], Path.IsPlain k := by
    intro k hk
    have hname : Path.IsName k ∧ k = "/".intercalate [k] := by
      revert k
      decide +kernel
    exact ⟨[k], by simp, by simpa using hname.1, hname.2⟩
  have hup : aim? (Path.ofString "p/a").parent.parts ".." = some ⟨"", []⟩ := by decide +kernel
  have hto : aim? (Path.ofString "p/a").parent.parts "..b" = some ⟨"", ["b"]⟩ := by decide +kernel
  obtain ⟨hmissed, hfound⟩ := (resolve?_under hd hi hknown (by decide) hup).2 rfl
  have hsame := (resolve?_under hd hi hknown (by decide) hto).1 (by decide)
  have hmodule : resolve? "..b" "p/a" ["__init__.py", "b"] = some "b" := by decide +kernel
  have hnone : (Language.allExtensions.map ("." ++ ·)).find? (["__init__.py", "b"].contains ·) = none := by
    refine List.find?_eq_none.mpr fun f hf hmem => ?_
    obtain ⟨ext, -, rfl⟩ := List.mem_map.mp hf
    have hhead : ∀ k ∈ ["__init__.py", "b"], k.toList.head? ≠ some '.' := by decide
    exact hhead _ (List.contains_iff_mem.mp hmem) (by simp)
  rw [hmodule] at hsame
  rw [hnone] at hmissed
  exact ⟨hmissed, hfound, hmodule, hsame⟩

end Graph

end Concordance
