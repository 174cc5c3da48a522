import Concordance.Proofs.Glob
import Concordance.Proofs.Path.Plain
import Concordance.Scan.Ignore

/-!
# Lines that name a folder

A line of an ignore file may write out a folder, with a slash behind it. If the folder is one name,
the line matches every path on which that name stands, and so all that is below the folder. A folder
of several names is looked for at the end of a path only: the line matches a path below the folder
just if the path ends with the folder once more (`IgnoreRules.matches_folderLine_iff`).

The last line that matches decides. So a folder of one name is ignored with all below it, unless a
later line takes a path back in, while a folder of several names leaves the paths below it to the
other lines (`IgnoreRules.folder_line_covers_iff`).
-/

namespace Concordance

theorem Chars.dropEnd_concat {p : Char → Bool} {cs : List Char} {c mark : Char}
    (hmark : p mark = true) (hlast : cs.getLast? = some c) (hc : p c = false) :
    dropEnd p (cs ++ [mark]) = cs := by
  obtain ⟨front, rfl⟩ := List.getLast?_eq_some_iff.mp hlast
  simp [dropEnd, hmark, hc]

namespace Path

/-- The characters of a path are slashes and those of its names. -/
theorem forall_mem_intercalate {P : Char → Prop} (hslash : P '/') {parts : List String}
    (h : ∀ n ∈ parts, ∀ c ∈ n.toList, P c) : ∀ c ∈ ("/".intercalate parts).toList, P c := by
  induction parts with
  | nil => simp
  | cons n parts ih =>
      obtain ⟨hn, hparts⟩ := List.forall_mem_cons.mp h
      cases parts with
      | nil => simpa using hn
      | cons m parts =>
          have hone : ∀ c ∈ "/".toList, P c := by simpa using hslash
          rw [String.intercalate_cons_cons, String.toList_append, String.toList_append]
          exact List.forall_mem_append.mpr ⟨List.forall_mem_append.mpr ⟨hn, hone⟩, ih hparts⟩

/-- The last name of a path stands at the end of its text. -/
theorem exists_intercalate_concat (front : List String) (last : String) :
    ∃ before, ("/".intercalate (front ++ [last])).toList = before ++ last.toList := by
  by_cases hfront : front = []
  · exact ⟨[], by simp [hfront]⟩
  · exact ⟨("/".intercalate front ++ "/").toList, by
      rw [String.intercalate_append_of_ne_nil hfront (by simp), String.toList_append,
        String.intercalate_singleton]⟩

/-- **Paths that end alike.** The text of a path is that of another, or ends with it behind a slash,
just if its names end with the names of the other. -/
theorem intercalate_suffix_iff {parts names : List String} (hne : names ≠ [])
    (hparts : ∀ n ∈ parts, '/' ∉ n.toList) (hnames : ∀ n ∈ names, '/' ∉ n.toList) :
    ((∃ folder, ("/".intercalate parts).toList =
        folder ++ '/' :: ("/".intercalate names).toList) ∨
      parts ≠ [] ∧ ("/".intercalate parts).toList = ("/".intercalate names).toList) ↔
      names <:+ parts := by
  have hinj : Function.Injective (List.map String.toList) :=
    List.map_injective_iff.mpr fun _ _ => String.toList_inj.mp
  constructor
  · rintro (⟨folder, htext⟩ | ⟨hne', htext⟩)
    · have hne' : parts ≠ [] := by
        rintro rfl
        simp at htext
      have hcut := congrArg (Chars.splitOn '/') htext
      rw [Chars.splitOn_append_sep, splitOn_intercalate hne' hparts,
        splitOn_intercalate hne hnames] at hcut
      obtain ⟨front, back, rfl, -, hback⟩ := List.map_eq_append_iff.mp hcut
      rw [hinj hback]
      exact List.suffix_append front names
    · have hcut := congrArg (Chars.splitOn '/') htext
      rw [splitOn_intercalate hne' hparts, splitOn_intercalate hne hnames] at hcut
      exact (hinj hcut).symm ▸ List.suffix_rfl
  · rintro ⟨front, rfl⟩
    by_cases hfront : front = []
    · subst hfront
      exact .inr ⟨hne, rfl⟩
    · refine .inl ⟨("/".intercalate front).toList, ?_⟩
      rw [String.intercalate_append_of_ne_nil hfront hne]
      simp

end Path

namespace IgnoreRules

/-! ### What a literal line matches -/

/-- A literal pattern matches the path that it writes, a path that ends with it behind a slash, and
a path on which it stands as a name. -/
theorem Rule.matches_of_isLiteral {r : Rule} (hne : r.pattern ≠ [])
    (hroot : r.pattern.head? ≠ some '/') (hliteral : Glob.IsLiteral r.pattern) (path : Path) :
    r.matches path = true ↔
      path.toText.toList = r.pattern ∨
        (∃ folder, path.toText.toList = folder ++ '/' :: r.pattern) ∨
        ∃ part ∈ path.allParts, part.toList = r.pattern := by
  unfold Rule.matches
  dsimp only
  split
  · next hnil => exact absurd hnil hne
  · next hslash => exact absurd (by rw [hslash, List.head?_cons]) hroot
  · simp only [Bool.or_eq_true, List.any_eq_true, Glob.acceptsChars_deep_iff,
      Glob.acceptsChars_of_isLiteral hliteral, Glob.matchChars_of_isLiteral hliteral]
    constructor
    · rintro ((hwhole | hwhole | ⟨folder, rest, htext, rfl⟩) | hpart)
      · exact .inl hwhole
      · exact .inl hwhole
      · exact .inr (.inl ⟨folder, htext⟩)
      · exact .inr (.inr hpart)
    · rintro (hwhole | ⟨folder, htext⟩ | hpart)
      · exact .inl (.inl hwhole)
      · exact .inl (.inr (.inr ⟨folder, _, htext, rfl⟩))
      · exact .inr hpart

/-- The line that names a folder. -/
def folderLine (names : List String) : String := "/".intercalate names ++ "/"

/-- The names of a folder that a line can write out: none is empty or has a slash in it, no character
in them stands for others, and the first does not begin with the mark of lines that take paths back
in. -/
structure Writable (names : List String) : Prop where
  ne_nil : names ≠ []
  ne_empty : ∀ n ∈ names, n ≠ ""
  slashless : ∀ n ∈ names, '/' ∉ n.toList
  literal : ∀ n ∈ names, Glob.IsLiteral n.toList
  unmarked : ∀ n ∈ names.head?, n.toList.head? ≠ some '!'

variable {names : List String}

/-- The text of a folder begins as its first name does. -/
theorem Writable.head?_text (h : Writable names) :
    ∃ c, ("/".intercalate names).toList.head? = some c ∧ c ≠ '!' ∧ c ≠ '/' := by
  obtain ⟨n, others, rfl⟩ := List.exists_cons_of_ne_nil h.ne_nil
  obtain ⟨rest, -, htext⟩ := Path.exists_toText_cons n others
  rw [Path.toText_of_ne_nil h.ne_nil] at htext
  have hn : n.toList ≠ [] := fun heq =>
    h.ne_empty n List.mem_cons_self (String.toList_eq_nil_iff.mp heq)
  obtain ⟨c, cs, hcs⟩ := List.exists_cons_of_ne_nil hn
  have hmark := h.unmarked n rfl
  have hslash := h.slashless n List.mem_cons_self
  rw [hcs] at hmark hslash
  refine ⟨c, by rw [htext, hcs, List.cons_append, List.head?_cons], ?_, ?_⟩
  · rintro rfl
    exact hmark rfl
  · rintro rfl
    exact hslash List.mem_cons_self

/-- The text of a folder does not end with a slash. -/
theorem Writable.getLast?_text (h : Writable names) :
    ∃ c, ("/".intercalate names).toList.getLast? = some c ∧ c ≠ '/' := by
  obtain ⟨front, last, rfl⟩ := (List.eq_nil_or_concat' names).resolve_left h.ne_nil
  have hmem : last ∈ front ++ [last] := by simp
  have hlast : last.toList ≠ [] := fun heq => h.ne_empty last hmem (String.toList_eq_nil_iff.mp heq)
  obtain ⟨before, htext⟩ := Path.exists_intercalate_concat front last
  refine ⟨last.toList.getLast hlast, ?_, ?_⟩
  · rw [htext, List.getLast?_append_of_ne_nil _ hlast, List.getLast?_eq_some_getLast hlast]
  · intro hslash
    exact h.slashless last hmem (hslash ▸ List.getLast_mem hlast)

theorem Writable.isLiteral_text (h : Writable names) :
    Glob.IsLiteral ("/".intercalate names).toList :=
  Path.forall_mem_intercalate (by decide) h.literal

/-- The slash behind a folder is no part of the pattern. -/
theorem Writable.ruleOf_folderLine (h : Writable names) :
    ruleOf (folderLine names) = ⟨false, ("/".intercalate names).toList⟩ := by
  obtain ⟨first, hfirst, hmark, -⟩ := h.head?_text
  obtain ⟨last, hlast, hslash⟩ := h.getLast?_text
  have hline : (folderLine names).toList = ("/".intercalate names).toList ++ ['/'] := by
    rw [folderLine, String.toList_append]
    rfl
  have hplain : ((folderLine names).toList.head? == some '!') = false := by
    rw [hline, List.head?_append, hfirst]
    simpa using hmark
  have hcut : Chars.dropEnd (· == '/') (folderLine names).toList = ("/".intercalate names).toList := by
    rw [hline]
    exact Chars.dropEnd_concat rfl hlast (beq_false_of_ne hslash)
  unfold ruleOf
  simp only [hplain, hcut, Bool.false_eq_true, if_false]

/-- **What a line that names a folder matches**: the paths that end with the folder, and if the
folder is one name, all paths on which that name stands. -/
theorem matches_folderLine_iff (h : Writable names) {parts : List String} (hne : parts ≠ [])
    (hparts : ∀ n ∈ parts, '/' ∉ n.toList) :
    (ruleOf (folderLine names)).matches ⟨"", parts⟩ = true ↔
      names <:+ parts ∨ ∃ n ∈ parts, names = [n] := by
  obtain ⟨first, hfirst, -, hslash⟩ := h.head?_text
  have hpattern : ("/".intercalate names).toList ≠ [] := by
    intro hnil
    rw [hnil] at hfirst
    cases hfirst
  have hroot : ("/".intercalate names).toList.head? ≠ some '/' := by
    rw [hfirst]
    simpa using hslash
  rw [h.ruleOf_folderLine, Rule.matches_of_isLiteral hpattern hroot h.isLiteral_text,
    Path.toText_of_ne_nil hne, ← Path.intercalate_suffix_iff h.ne_nil hparts h.slashless]
  dsimp only
  have hname : (∃ part ∈ (Path.mk "" parts).allParts,
      part.toList = ("/".intercalate names).toList) ↔ ∃ n ∈ parts, names = [n] := by
    refine exists_congr fun n => and_congr_right fun hn => ?_
    rw [String.toList_inj]
    constructor
    · intro htext
      -- a name has no slash in it, so the folder is one name
      have hcut := congrArg (Chars.splitOn '/' ∘ String.toList) htext
      rw [Function.comp_apply, Function.comp_apply, Chars.splitOn_of_notMem (hparts n hn),
        Path.splitOn_intercalate h.ne_nil h.slashless] at hcut
      obtain ⟨m, rfl⟩ := List.length_eq_one_iff.mp (by simpa using (congrArg List.length hcut).symm)
      rw [htext, String.intercalate_singleton]
    · rintro rfl
      rw [String.intercalate_singleton]
  rw [hname]
  constructor
  · rintro (hwhole | hend | hpart)
    · exact .inl (.inr ⟨hne, hwhole⟩)
    · exact .inl (.inl hend)
    · exact .inr hpart
  · rintro ((hend | ⟨-, hwhole⟩) | hpart)
    · exact .inr (.inl hend)
    · exact .inl hwhole
    · exact .inr (.inr hpart)

/-! ### The last line that matches -/

/-- A line that does not match a path can be left out. -/
theorem ignores_of_unmatched {before after : List String} {line : String} {path : Path}
    (h : (ruleOf line).matches path = false) :
    ignores ⟨before ++ line :: after⟩ path = ignores ⟨before ++ after⟩ path := by
  simp only [ignores, List.foldl_append, List.foldl_cons]
  congr 1
  unfold decide
  simp [h]

/-- What is ignored stays ignored if no line takes it back in. -/
theorem foldl_decide_true {path : Path} {lines : List String}
    (h : ∀ line ∈ lines, (ruleOf line).negated = true → (ruleOf line).matches path = false) :
    lines.foldl (decide path) true = true := by
  induction lines with
  | nil => rfl
  | cons line lines ih =>
      obtain ⟨hline, hlines⟩ := List.forall_mem_cons.mp h
      have hkept : decide path true line = true := by
        unfold decide
        dsimp only
        split
        · next hmatch =>
          cases hnegated : (ruleOf line).negated with
          | false => rfl
          | true =>
              rw [hline hnegated] at hmatch
              cases hmatch
        · rfl
      rw [List.foldl_cons, hkept]
      exact ih hlines

/-- **The last line that matches decides.** -/
theorem ignores_of_matched {before after : List String} {line : String} {path : Path}
    (hmatch : (ruleOf line).matches path = true) (hplain : (ruleOf line).negated = false)
    (hlater : ∀ later ∈ after, (ruleOf later).negated = true →
      (ruleOf later).matches path = false) :
    ignores ⟨before ++ line :: after⟩ path = true := by
  have hline : ∀ ignored, decide path ignored line = true := by
    intro ignored
    unfold decide
    simp [hmatch, hplain]
  simp only [ignores, List.foldl_append, List.foldl_cons, hline]
  exact foldl_decide_true hlater

/-- **What a line that names a folder does to the paths below it**, if no later line takes them back
in. A folder of one name is ignored with all below it. A folder of several names is not: a path below
it is ignored if it ends with the names of the folder once more, and all others are as they would be
without the line. -/
theorem folder_line_covers_iff (h : Writable names) {rest : List String}
    (hrest : ∀ n ∈ rest, '/' ∉ n.toList) {before after : List String}
    (hlater : ∀ later ∈ after, (ruleOf later).negated = true →
      (ruleOf later).matches ⟨"", names ++ rest⟩ = false) :
    ignores ⟨before ++ folderLine names :: after⟩ ⟨"", names ++ rest⟩ = true ↔
      names.length = 1 ∨ names <:+ names ++ rest ∨
        ignores ⟨before ++ after⟩ ⟨"", names ++ rest⟩ = true := by
  have hparts : ∀ n ∈ names ++ rest, '/' ∉ n.toList :=
    List.forall_mem_append.mpr ⟨h.slashless, hrest⟩
  have hne : names ++ rest ≠ [] := by simp [h.ne_nil]
  have hmatches := matches_folderLine_iff h hne hparts
  have hplain : (ruleOf (folderLine names)).negated = false := by rw [h.ruleOf_folderLine]
  have hone : names.length = 1 ↔ ∃ n ∈ names ++ rest, names = [n] := by
    rw [List.length_eq_one_iff]
    refine exists_congr fun n => ⟨?_, And.right⟩
    rintro rfl
    exact ⟨by simp, rfl⟩
  rw [hone]
  cases hmatch : (ruleOf (folderLine names)).matches ⟨"", names ++ rest⟩ with
  | true =>
      rw [ignores_of_matched hmatch hplain hlater]
      refine iff_of_true rfl ?_
      rcases hmatches.mp hmatch with hend | hname
      · exact .inr (.inl hend)
      · exact .inl hname
  | false =>
      rw [ignores_of_unmatched hmatch]
      rw [← Bool.not_eq_true, hmatches, not_or] at hmatch
      rw [or_iff_right hmatch.2, or_iff_right hmatch.1]

/-- The folder of two names is not covered, though the one of a single name is, between lines that do
not match: nothing takes either path back in. -/
theorem folder_line_covers_iff_nested :
    Writable ["a", "b"] ∧ ignores ⟨["a/b/"]⟩ ⟨"", ["a", "b", "c.py"]⟩ = false ∧
      Writable ["logs"] ∧
      ignores ⟨["*.md", "logs/", "!keep.py"]⟩ ⟨"", ["logs", "old", "run.py"]⟩ = true := by
  have hpair : Writable ["a", "b"] := ⟨by decide, by decide, by decide, by decide, by decide⟩
  have hsingle : Writable ["logs"] := ⟨by decide, by decide, by decide, by decide, by decide⟩
  have hnested : folderLine ["a", "b"] = "a/b/" := by decide
  have hlogs : folderLine ["logs"] = "logs/" := by decide
  refine ⟨hpair, ?_, hsingle, ?_⟩
  · have hiff : ignores ⟨[] ++ folderLine ["a", "b"] :: []⟩ ⟨"", ["a", "b"] ++ ["c.py"]⟩ = true ↔ _ :=
      folder_line_covers_iff hpair (by decide) (by simp)
    rw [hnested] at hiff
    rw [← Bool.not_eq_true]
    exact hiff.not.mpr (by decide)
  · have hlater : ∀ later ∈ ["!keep.py"], (ruleOf later).negated = true →
        (ruleOf later).matches ⟨"", ["logs"] ++ ["old", "run.py"]⟩ = false := by
      decide +kernel
    have hiff : ignores ⟨["*.md"] ++ folderLine ["logs"] :: ["!keep.py"]⟩ _ = true ↔ _ :=
      folder_line_covers_iff hsingle (by decide) hlater
    rw [hlogs] at hiff
    exact hiff.mpr (.inl rfl)

end IgnoreRules

end Concordance
