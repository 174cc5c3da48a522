import Concordance.Path
import Mathlib.Data.List.Basic

/-!
# Names and written paths

A *name* is what a folder may hold an entry under: not empty, no dots alone, no slash in it. The
text of a relative path that consists of names writes that path and no other, so such a path can
be read off its text (`Path.ofString_toText`).
-/

namespace Concordance

namespace Chars

theorem splitOn_cons (sep c : Char) (cs : List Char) :
    splitOn sep (c :: cs) =
      if c == sep then [] :: splitOn sep cs
      else match splitOn sep cs with
        | [] => [[c]]
        | piece :: others => (c :: piece) :: others := rfl

/-- The pieces are those into which the library cuts a list. -/
theorem splitOn_eq (sep : Char) (cs : List Char) : splitOn sep cs = cs.splitOn sep := by
  induction cs with
  | nil => rfl
  | cons c cs ih =>
      obtain ⟨piece, others, hpieces⟩ := List.exists_cons_of_ne_nil (List.splitOn_ne_nil sep cs)
      rw [splitOn_cons, ih, List.splitOn_cons_eq_if_modifyHead, hpieces]
      rfl

theorem splitOn_ne_nil (sep : Char) (cs : List Char) : splitOn sep cs ≠ [] := by
  rw [splitOn_eq]
  exact List.splitOn_ne_nil sep cs

/-- A text without the separator is one piece. -/
theorem splitOn_of_notMem {sep : Char} {cs : List Char} (h : sep ∉ cs) :
    splitOn sep cs = [cs] := by
  rw [splitOn_eq, List.splitOn_eq_singleton h]

/-- A separator cuts the pieces before it from those behind it. -/
theorem splitOn_append_sep (sep : Char) (front back : List Char) :
    splitOn sep (front ++ sep :: back) = splitOn sep front ++ splitOn sep back := by
  rw [splitOn_eq, splitOn_eq, splitOn_eq, List.splitOn_append_cons_self]

/-- A list is cut into one piece more than it has separators. -/
theorem length_pieces {α : Type} [BEq α] (sep : α) (as : List α) :
    (as.splitOn sep).length = as.count sep + 1 := by
  induction as with
  | nil => rfl
  | cons a as ih =>
      rw [List.splitOn_cons_eq_if_modifyHead, List.count_cons]
      split
      · rw [List.length_cons, ih]
      · rw [List.length_modifyHead, ih]

/-- No piece has the separator in it. -/
theorem notMem_of_mem_splitOn {sep : Char} {cs piece : List Char} (h : piece ∈ splitOn sep cs) :
    sep ∉ piece := by
  induction cs generalizing piece with
  | nil =>
      rw [List.mem_singleton.mp h]
      exact List.not_mem_nil
  | cons c cs ih =>
      rw [splitOn_cons] at h
      split at h
      · rcases List.mem_cons.mp h with rfl | h
        · exact List.not_mem_nil
        · exact ih h
      · next hc =>
        have hne : sep ≠ c := fun heq => hc (by simp [heq])
        split at h
        · rw [List.mem_singleton.mp h]
          simpa using hne
        · next first others hpieces =>
          rw [hpieces] at ih
          rcases List.mem_cons.mp h with rfl | h
          · rw [List.mem_cons, not_or]
            exact ⟨hne, ih List.mem_cons_self⟩
          · exact ih (List.mem_cons_of_mem _ h)

/-- **What stands behind the last mark** is the same in two writings of one text. -/
theorem eq_of_append_mark (isMark : Char → Prop) {front front' back back' : List Char}
    {mark mark' : Char} (hmark : isMark mark) (hmark' : isMark mark')
    (hback : ∀ c ∈ back, ¬ isMark c) (hback' : ∀ c ∈ back', ¬ isMark c)
    (heq : front ++ mark :: back = front' ++ mark' :: back') : back = back' := by
  rcases List.append_eq_append_iff.mp heq with ⟨between, -, hrest⟩ | ⟨between, -, hrest⟩
  · cases between with
    | nil => exact (List.cons.inj hrest).2
    | cons c between =>
        have hmem : mark' ∈ back := by simp [(List.cons.inj hrest).2]
        exact absurd hmark' (hback mark' hmem)
  · cases between with
    | nil => exact (List.cons.inj hrest).2.symm
    | cons c between =>
        have hmem : mark ∈ back' := by simp [(List.cons.inj hrest).2]
        exact absurd hmark (hback' mark hmem)

end Chars

namespace Path

/-- A name under which a folder can hold an entry. -/
def IsName (s : String) : Prop :=
  s ≠ "" ∧ s ≠ "." ∧ s ≠ ".." ∧ '/' ∉ s.toList

instance (s : String) : Decidable (IsName s) :=
  inferInstanceAs (Decidable (_ ∧ _ ∧ _ ∧ _))

/-- A path is cut at its slashes into its names. -/
theorem splitOn_intercalate {parts : List String} (hne : parts ≠ [])
    (h : ∀ n ∈ parts, '/' ∉ n.toList) :
    Chars.splitOn '/' ("/".intercalate parts).toList = parts.map String.toList := by
  induction parts with
  | nil => exact absurd rfl hne
  | cons n parts ih =>
      obtain ⟨hn, hparts⟩ := List.forall_mem_cons.mp h
      cases parts with
      | nil => rw [String.intercalate_singleton, Chars.splitOn_of_notMem hn, List.map_singleton]
      | cons m parts =>
          have htext : ("/".intercalate (n :: m :: parts)).toList =
              n.toList ++ '/' :: ("/".intercalate (m :: parts)).toList := by
            simp [String.intercalate_cons_cons]
          rw [htext, Chars.splitOn_append_sep, Chars.splitOn_of_notMem hn, ih (by simp) hparts,
            List.singleton_append, ← List.map_cons]

/-- The names of a written path are the names it was written from. -/
theorem namesOf_intercalate {parts : List String} (h : ∀ n ∈ parts, IsName n) :
    namesOf ("/".intercalate parts).toList = parts := by
  have hkeep : ∀ n ∈ parts, (n != "" && n != ".") = true := by
    intro n hn
    simp [(h n hn).1, (h n hn).2.1]
  by_cases hne : parts = []
  · subst hne
    simp [namesOf, Chars.splitOn, Chars.splitAtEach]
  · rw [namesOf, splitOn_intercalate hne fun n hn => (h n hn).2.2.2, List.map_map]
    simp [Function.comp_def, List.filter_eq_self.mpr hkeep]

/-- What a path goes along is a name, or a double dot. -/
theorem isName_of_mem_namesOf {cs : List Char} {n : String} (h : n ∈ namesOf cs)
    (hup : n ≠ "..") : IsName n := by
  obtain ⟨hmem, hkept⟩ := List.mem_filter.mp h
  obtain ⟨piece, hpiece, rfl⟩ := List.mem_map.mp hmem
  simp only [Bool.and_eq_true, bne_iff_ne] at hkept
  refine ⟨hkept.1, hkept.2, hup, ?_⟩
  rw [String.toList_ofList]
  exact Chars.notMem_of_mem_splitOn hpiece

/-- **A path of names can be read off its text.** -/
theorem ofString_toText {parts : List String} (h : ∀ n ∈ parts, IsName n) :
    ofString (toText ⟨"", parts⟩) = ⟨"", parts⟩ := by
  cases parts with
  | nil => decide
  | cons n parts =>
      have htext : toText ⟨"", n :: parts⟩ = "/".intercalate (n :: parts) := by
        simp [toText]
      rw [htext, ofString, namesOf_intercalate h]
      have hn := h n List.mem_cons_self
      have hroot : rootOf ("/".intercalate (n :: parts)).toList = "" := by
        obtain ⟨c, cs, hcs⟩ : ∃ c cs, n.toList = c :: cs := by
          cases hl : n.toList with
          | nil => exact absurd (String.toList_eq_nil_iff.mp hl) hn.1
          | cons c cs => exact ⟨c, cs, rfl⟩
        have hc : c ≠ '/' := fun hc => hn.2.2.2 (by simp [hcs, hc])
        have hstart : ∃ rest, ("/".intercalate (n :: parts)).toList = c :: rest := by
          cases parts with
          | nil => exact ⟨cs, by rw [String.intercalate_singleton, hcs]⟩
          | cons m parts =>
              exact ⟨_, by rw [String.intercalate_cons_cons, String.toList_append,
                String.toList_append, hcs, List.cons_append, List.cons_append]⟩
        obtain ⟨rest, hrest⟩ := hstart
        simp [rootOf, hrest, hc]
      rw [hroot]

/-- Paths of names with one text are one path. -/
theorem eq_of_toText {parts parts' : List String} (h : ∀ n ∈ parts, IsName n)
    (h' : ∀ n ∈ parts', IsName n) (htext : toText ⟨"", parts⟩ = toText ⟨"", parts'⟩) :
    parts = parts' := by
  have hpath := congrArg ofString htext
  rw [ofString_toText h, ofString_toText h'] at hpath
  exact (Path.mk.inj hpath).2

/-- A single name is the path to what stands under it. -/
theorem ofString_of_isName {n : String} (h : IsName n) : ofString n = ⟨"", [n]⟩ := by
  have htext : toText ⟨"", [n]⟩ = n := by
    rw [toText, if_neg (by simp), String.intercalate_singleton, String.empty_append]
  have hread := ofString_toText (List.forall_mem_singleton.mpr h)
  rwa [htext] at hread

/-- A path without double dots is normalized. -/
theorem normalized_of_notMem {root : String} {parts : List String} (h : ".." ∉ parts) :
    normalized ⟨root, parts⟩ = ⟨root, parts⟩ := by
  have hpushed : ∀ (rooted : Bool) (parts way : List String), ".." ∉ parts →
      parts.foldl (normalStep rooted) way = parts.reverse ++ way := by
    intro rooted parts
    induction parts with
    | nil => exact fun way _ => rfl
    | cons n parts ih =>
        intro way hup
        rw [List.mem_cons, not_or] at hup
        have hstep : normalStep rooted way n = n :: way := if_pos (by simpa using Ne.symm hup.1)
        rw [List.foldl_cons, hstep, ih _ hup.2, List.reverse_cons, List.append_assoc]
        rfl
  rw [normalized]
  dsimp only
  rw [hpushed _ _ _ h, List.append_nil, List.reverse_reverse]

/-- Working off double dots below a root leaves other names of the path. -/
theorem of_mem_normalized {names : List String} {n : String}
    (h : n ∈ (normalized ⟨"/", names⟩).parts) : n ∈ names ∧ n ≠ ".." := by
  have hstep : ∀ (names way : List String), (∀ m ∈ way, m ≠ "..") →
      ∀ m ∈ names.foldl (normalStep true) way, (m ∈ way ∨ m ∈ names) ∧ m ≠ ".." := by
    intro names
    induction names with
    | nil => exact fun way hway m hm => ⟨.inl hm, hway m hm⟩
    | cons name names ih =>
        intro way hway m hm
        rw [List.foldl_cons] at hm
        by_cases hup : name = ".."
        · -- a name is taken back, if there is one
          have hback : normalStep true way name = way.tail := by
            subst hup
            cases way with
            | nil => rfl
            | cons last way =>
                have hlast := hway last List.mem_cons_self
                unfold normalStep
                rw [if_neg (by decide)]
                exact if_neg (by simpa using hlast)
          rw [hback] at hm
          obtain ⟨hmem, hne⟩ := ih _ (fun k hk => hway k (List.mem_of_mem_tail hk)) m hm
          exact ⟨hmem.imp List.mem_of_mem_tail (List.mem_cons_of_mem _), hne⟩
        · have hon : normalStep true way name = name :: way := by
            unfold normalStep
            exact if_pos (by simpa using hup)
          rw [hon] at hm
          obtain ⟨hmem, hne⟩ := ih _ (List.forall_mem_cons.mpr ⟨hup, hway⟩) m hm
          refine ⟨?_, hne⟩
          rcases hmem with hmem | hmem
          · rcases List.mem_cons.mp hmem with rfl | hmem
            · exact .inr List.mem_cons_self
            · exact .inl hmem
          · exact .inr (List.mem_cons_of_mem _ hmem)
  obtain ⟨hmem, hne⟩ := hstep names [] (by simp) n (List.mem_reverse.mp h)
  exact ⟨hmem.resolve_left List.not_mem_nil, hne⟩

/-- What lies below a path has the path in front of it. -/
theorem below?_eq_some_iff {root : String} {base parts rest : List String} :
    below? ⟨root, base⟩ ⟨root, parts⟩ = some rest ↔ parts = base ++ rest := by
  unfold below?
  constructor
  · intro h
    split at h
    · next hcond =>
      cases h
      simp only [Bool.and_eq_true, List.isPrefixOf_iff_prefix] at hcond
      exact (List.prefix_iff_eq_append.mp hcond.2).symm
    · cases h
  · rintro rfl
    rw [if_pos (by simp), List.drop_left]

/-- The text of a path of names that are not empty is not empty. -/
theorem toText_ne_empty {parts : List String} (h : ∀ n ∈ parts, n ≠ "") :
    toText ⟨"", parts⟩ ≠ "" := by
  cases parts with
  | nil => decide
  | cons n rest =>
      have hn : n ≠ "" := h n List.mem_cons_self
      intro hempty
      have hchars := congrArg String.toList hempty
      cases rest with
      | nil => simp [toText, hn] at hchars
      | cons m rest => simp [toText, hn] at hchars

end Path

end Concordance
