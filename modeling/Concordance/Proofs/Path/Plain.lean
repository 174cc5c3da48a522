import Concordance.Proofs.Path

/-!
# Plain paths

A plain path is how a project writes where a file stands: names with slashes between them. It is read
as its names, and put into a folder it is plain again. It begins neither with a slash nor with a dot
and a slash, and it is not a dot.
-/

namespace Concordance

namespace Path

/-- A text is a plain path: names, at least one, with slashes between them. -/
def IsPlain (s : String) : Prop :=
  ∃ parts : List String, parts ≠ [] ∧ (∀ n ∈ parts, IsName n) ∧ s = "/".intercalate parts

/-- The path of an entry that is taken from a folder. -/
def under (d s : String) : String :=
  d ++ "/" ++ s

/-- A path is its parts with slashes between them. -/
theorem toText_of_ne_nil {parts : List String} (h : parts ≠ []) :
    toText ⟨"", parts⟩ = "/".intercalate parts := by
  rw [toText, if_neg (by simp [h]), String.empty_append]

/-- A plain path in a folder is plain. -/
theorem isPlain_under {s : String} (h : IsPlain s) {d : List String} (hne : d ≠ [])
    (hd : ∀ n ∈ d, IsName n) : IsPlain (under ("/".intercalate d) s) := by
  obtain ⟨parts, hparts, hnames, rfl⟩ := h
  exact ⟨d ++ parts, by simp [hne], List.forall_mem_append.mpr ⟨hd, hnames⟩,
    (String.intercalate_append_of_ne_nil hne hparts).symm⟩

/-- A plain path is read as its names. -/
theorem ofString_intercalate {parts : List String} (hne : parts ≠ []) (h : ∀ n ∈ parts, IsName n) :
    ofString ("/".intercalate parts) = ⟨"", parts⟩ := by
  rw [← toText_of_ne_nil hne]
  exact ofString_toText h

/-- The folder of a plain path consists of names. -/
theorem IsPlain.parent_eq {s : String} (h : IsPlain s) :
    (ofString s).parent = ⟨"", (ofString s).parent.parts⟩ ∧
      ∀ n ∈ (ofString s).parent.parts, IsName n := by
  obtain ⟨parts, hne, hnames, rfl⟩ := h
  rw [ofString_intercalate hne hnames]
  exact ⟨rfl, fun n hn => hnames n (List.dropLast_subset parts hn)⟩

/-- The folder of a plain path below a folder. -/
theorem IsPlain.parent_under {s : String} (h : IsPlain s) {d : List String} (hne : d ≠ [])
    (hd : ∀ n ∈ d, IsName n) :
    (ofString (under ("/".intercalate d) s)).parent = ⟨"", d ++ (ofString s).parent.parts⟩ := by
  obtain ⟨parts, hparts, hnames, rfl⟩ := h
  have hboth : ∀ n ∈ d ++ parts, IsName n := List.forall_mem_append.mpr ⟨hd, hnames⟩
  rw [under, ← String.intercalate_append_of_ne_nil hne hparts, ofString_intercalate (by simp [hne]) hboth,
    ofString_intercalate hparts hnames]
  exact congrArg (Path.mk "") (List.dropLast_append_of_ne_nil hparts)

/-- A part of a path: neither a dot, nor is there a slash in it. -/
def IsPart (n : String) : Prop :=
  n ≠ "." ∧ '/' ∉ n.toList

theorem IsName.isPart {n : String} (h : IsName n) : IsPart n :=
  ⟨h.2.1, h.2.2.2⟩

/-- The parts of a path that is read are proper. -/
theorem isPart_of_mem_ofString {s n : String} (h : n ∈ (ofString s).parts) : IsPart n := by
  by_cases hup : n = ".."
  · subst hup
    exact ⟨by decide, by decide⟩
  · exact (isName_of_mem_namesOf h hup).isPart

/-- The first part of a path stands in front of its text. -/
theorem exists_toText_cons (n : String) (parts : List String) :
    ∃ rest, (rest = [] ∨ rest.head? = some '/') ∧
      (toText ⟨"", n :: parts⟩).toList = n.toList ++ rest := by
  rw [toText_of_ne_nil (by simp)]
  cases parts with
  | nil => exact ⟨[], .inl rfl, by simp⟩
  | cons m parts => exact ⟨'/' :: ("/".intercalate (m :: parts)).toList, .inr rfl, by
      simp [String.intercalate_cons_cons]⟩

/-- The text of a path with parts neither is a dot nor begins with a dot and a slash. -/
theorem toText_ne_dot {n : String} (h : IsPart n) (parts : List String) {tail : List Char}
    (htail : tail = [] ∨ tail.head? = some '/') :
    (toText ⟨"", n :: parts⟩).toList ≠ '.' :: tail := by
  intro heq
  obtain ⟨rest, hrest, htext⟩ := exists_toText_cons n parts
  rw [htext] at heq
  cases hn : n.toList with
  | nil =>
      rw [hn, List.nil_append] at heq
      simp [heq] at hrest
  | cons c cs =>
      rw [hn, List.cons_append, List.cons.injEq] at heq
      obtain ⟨rfl, rfl⟩ := heq
      cases cs with
      | nil => exact h.1 (String.toList_inj.mp hn)
      | cons c' cs =>
          have hslash : c' = '/' := by simpa using htail
          exact h.2 (by simp [hn, hslash])

theorem IsPlain.ne_dot {s : String} (h : IsPlain s) {tail : List Char}
    (htail : tail = [] ∨ tail.head? = some '/') : s.toList ≠ '.' :: tail := by
  obtain ⟨parts, hne, hnames, rfl⟩ := h
  obtain ⟨n, parts, rfl⟩ := List.exists_cons_of_ne_nil hne
  rw [← toText_of_ne_nil hne]
  exact toText_ne_dot (hnames n List.mem_cons_self).isPart parts htail

/-- A plain path is relative. -/
theorem IsPlain.ne_slash {s : String} (h : IsPlain s) (tail : List Char) :
    s.toList ≠ '/' :: tail := by
  intro heq
  obtain ⟨parts, hne, hnames, rfl⟩ := h
  obtain ⟨n, parts, rfl⟩ := List.exists_cons_of_ne_nil hne
  obtain ⟨hempty, -, -, hslash⟩ := hnames n List.mem_cons_self
  obtain ⟨rest, -, htext⟩ := exists_toText_cons n parts
  rw [← toText_of_ne_nil hne, htext] at heq
  cases hn : n.toList with
  | nil => exact hempty (String.toList_eq_nil_iff.mp hn)
  | cons c cs =>
      rw [hn, List.cons_append, List.cons.injEq] at heq
      exact hslash (by simp [hn, heq.1])

/-- A written path is relative, or its text begins with a slash. -/
theorem relative_or_slash (s : String) :
    (ofString s).root = "" ∨ ∃ tail, (ofString s).toText.toList = '/' :: tail := by
  have hroot : rootOf s.toList = "" ∨ ∃ tail, (rootOf s.toList).toList = '/' :: tail := by
    unfold rootOf
    split
    · exact .inl rfl
    · exact .inr ⟨['/'], rfl⟩
    · exact .inr ⟨[], rfl⟩
  refine hroot.imp id fun ⟨tail, htail⟩ => ⟨tail ++ ("/".intercalate (ofString s).parts).toList, ?_⟩
  have hne : ¬ ((ofString s).root.isEmpty && (ofString s).parts.isEmpty) = true := by
    intro hempty
    have hnone := String.isEmpty_iff.mp (Bool.and_eq_true_iff.mp hempty).1
    rw [show rootOf s.toList = "" from hnone] at htail
    cases htail
  rw [toText, if_neg hne, String.toList_append, show (ofString s).root.toList = '/' :: tail from htail,
    List.cons_append]

/-- Taking a path from a folder of a folder. -/
theorem join_join (folder folder' : List String) (q : Path) :
    (Path.mk "" folder).join ((Path.mk "" folder').join q) = (Path.mk "" (folder ++ folder')).join q := by
  by_cases hroot : q.root = ""
  · simp [join, isAbsolute, hroot]
  · simp [join, isAbsolute, hroot]

end Path

end Concordance
