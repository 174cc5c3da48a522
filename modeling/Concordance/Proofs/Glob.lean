import Concordance.Glob
import Mathlib.Data.List.Basic

/-!
# What globs match

The parts of a glob read a text from its front to its end, each part a piece of its own
(`Glob.Reads`), and the matcher decides just that (`Glob.matchTokens_iff_reads`). A path is accepted
if it is read by the glob, or by what is left of the glob without some of the `**/` in front of it
(`Glob.acceptsChars_iff_exists`).

From this follows what one `**/` in front of a glob means: the glob may begin at the front of the
path or behind any of its slashes (`Glob.acceptsChars_deep_iff`). That is so for every glob, also
for one that begins with `**/` itself. A glob without stars, question marks and brackets is
*literal* and matches only itself.
-/

namespace Concordance.Glob

/-! ### The parts of a glob -/

/-- The parts of a glob read a text, each of them its own piece. A star reads any piece, slashes
too. -/
inductive Reads : List Token → List Char → Prop
  | nil : Reads [] []
  | star (piece : List Char) {ts : List Token} {cs : List Char} (rest : Reads ts cs) :
      Reads (.star :: ts) (piece ++ cs)
  | any (c : Char) {ts : List Token} {cs : List Char} (rest : Reads ts cs) :
      Reads (.any :: ts) (c :: cs)
  | char (c : Char) {ts : List Token} {cs : List Char} (rest : Reads ts cs) :
      Reads (.char c :: ts) (c :: cs)
  | oneOf {k : CharClass} {c : Char} (hc : k.contains c = true) {ts : List Token} {cs : List Char}
      (rest : Reads ts cs) : Reads (.oneOf k :: ts) (c :: cs)

/-- A star may take one more character. -/
theorem Reads.star_cons {ts : List Token} {cs : List Char} (h : Reads (.star :: ts) cs) (c : Char) :
    Reads (.star :: ts) (c :: cs) := by
  cases h with
  | star piece rest => exact .star (c :: piece) rest

/-- What the parts behind a star match is matched with any piece in front of it. -/
theorem matchTokens_star_append {ts : List Token} {cs : List Char} (h : matchTokens ts cs = true)
    (piece : List Char) : matchTokens (.star :: ts) (piece ++ cs) = true := by
  induction piece with
  | nil =>
      cases cs with
      | nil => rw [List.append_nil, matchTokens, h]
      | cons c cs => rw [List.nil_append, matchTokens, h, Bool.true_or]
  | cons c piece ih => rw [List.cons_append, matchTokens, ih, Bool.or_true]

/-- **The matcher decides what the parts read.** -/
theorem matchTokens_iff_reads {ts : List Token} {cs : List Char} :
    matchTokens ts cs = true ↔ Reads ts cs := by
  constructor
  · intro h
    fun_induction matchTokens ts cs with
    | case1 cs =>
        rw [List.isEmpty_iff.mp h]
        exact .nil
    | case2 ts ih => exact .star [] (ih h)
    | case3 ts c cs ihskip ihtake =>
        rcases Bool.or_eq_true_iff.mp h with hskip | htake
        · exact .star [] (ihskip hskip)
        · exact (ihtake htake).star_cons c
    | case4 ts c cs ih => exact .any c (ih h)
    | case5 x ts c cs ih =>
        obtain ⟨hx, hrest⟩ := Bool.and_eq_true_iff.mp h
        rw [eq_of_beq hx]
        exact .char c (ih hrest)
    | case6 k ts c cs ih =>
        obtain ⟨hc, hrest⟩ := Bool.and_eq_true_iff.mp h
        exact .oneOf hc (ih hrest)
    | case7 => cases h
  · intro h
    induction h with
    | nil => rw [matchTokens, List.isEmpty_nil]
    | star piece rest ih => exact matchTokens_star_append ih piece
    | any c rest ih => rw [matchTokens, ih]
    | char c rest ih => rw [matchTokens, ih, BEq.rfl, Bool.true_and]
    | oneOf hc rest ih => rw [matchTokens, ih, hc, Bool.true_and]

/-! ### Folders in front -/

/-- Two stars and a slash are a star and a slash. -/
theorem tokens_deep (glob : List Char) :
    tokens ('*' :: '*' :: '/' :: glob) = .star :: .char '/' :: tokens glob := by
  rw [tokens, tokens, tokens]
  rfl

/-- A glob behind `**/` matches what it matches behind a slash. -/
theorem matchChars_deep_iff {glob path : List Char} :
    matchChars ('*' :: '*' :: '/' :: glob) path = true ↔
      ∃ folder rest, path = folder ++ '/' :: rest ∧ matchChars glob rest = true := by
  simp only [matchChars, tokens_deep, matchTokens_iff_reads]
  constructor
  · intro h
    cases h with
    | star folder hslash =>
        cases hslash with
        | char _ hrest => exact ⟨folder, _, rfl, hrest⟩
  · rintro ⟨folder, rest, rfl, hrest⟩
    exact .star folder (.char '/' hrest)

/-- The glob with so many `**/` in front of it. -/
def deep : Nat → List Char → List Char
  | 0, glob => glob
  | k + 1, glob => '*' :: '*' :: '/' :: deep k glob

/-- It does not matter whether a `**/` is counted at the front or at the glob. -/
theorem deep_deep (k : Nat) (glob : List Char) : deep k (deep 1 glob) = deep (k + 1) glob := by
  induction k with
  | zero => rfl
  | succ k ih => rw [deep, ih, ← deep]

/-- What a glob matches it accepts. -/
theorem acceptsChars_of_matchChars {glob path : List Char} (h : matchChars glob path = true) :
    acceptsChars glob path = true := by
  unfold acceptsChars
  rw [h, Bool.true_or]

/-- **What is accepted.** A path is accepted if it is matched once some of the `**/` in front of the
glob are left out. -/
theorem acceptsChars_iff_exists {glob path : List Char} :
    acceptsChars glob path = true ↔
      ∃ k rest, glob = deep k rest ∧ matchChars rest path = true := by
  constructor
  · intro h
    fun_induction acceptsChars glob path with
    | case1 glob ih =>
        rcases Bool.or_eq_true_iff.mp h with hwhole | hshort
        · exact ⟨0, glob, rfl, hwhole⟩
        · split at hshort
          · next rest =>
            obtain ⟨k, last, rfl, hlast⟩ := ih hshort
            exact ⟨k + 1, last, rfl, hlast⟩
          · cases hshort
  · rintro ⟨k, rest, rfl, hrest⟩
    induction k with
    | zero => exact acceptsChars_of_matchChars hrest
    | succ k ih => rw [deep, acceptsChars, ih, Bool.or_true]

/-- **A `**/` in front of a glob** stands for nothing, or for all that comes before one of the
slashes. -/
theorem acceptsChars_deep_iff {glob path : List Char} :
    acceptsChars ('*' :: '*' :: '/' :: glob) path = true ↔
      acceptsChars glob path = true ∨
        ∃ folder rest, path = folder ++ '/' :: rest ∧ acceptsChars glob rest = true := by
  constructor
  · intro h
    rw [acceptsChars, Bool.or_eq_true, matchChars_deep_iff] at h
    rcases h with ⟨folder, rest, hpath, hrest⟩ | h
    · exact .inr ⟨folder, rest, hpath, acceptsChars_of_matchChars hrest⟩
    · exact .inl h
  · rintro (h | ⟨folder, rest, hpath, hrest⟩)
    · rw [acceptsChars, h, Bool.or_true]
    · -- the last `**/` that was left out takes the folder
      obtain ⟨k, last, rfl, hlast⟩ := acceptsChars_iff_exists.mp hrest
      have hdeep : matchChars (deep 1 last) path = true :=
        matchChars_deep_iff.mpr ⟨folder, rest, hpath, hlast⟩
      exact acceptsChars_iff_exists.mpr ⟨k, deep 1 last, (deep_deep k last).symm, hdeep⟩

/-- **The meaning of a glob.** A path is accepted by a glob if the parts of the glob read it once
some of the `**/` in front are left out; and one more `**/` in front accepts what the glob accepts,
at the front of the path or behind any of its slashes. -/
theorem accepts_deep_iff (glob path : String) :
    (accepts glob path = true ↔
      ∃ k rest, glob.toList = deep k rest ∧ Reads (tokens rest) path.toList) ∧
    (accepts ("**/" ++ glob) path = true ↔
      accepts glob path = true ∨
        ∃ folder rest : String, path = folder ++ "/" ++ rest ∧ accepts glob rest = true) := by
  have hfront : ("**/" ++ glob).toList = '*' :: '*' :: '/' :: glob.toList := by
    rw [String.toList_append]
    rfl
  refine ⟨?_, ?_⟩
  · simp only [accepts, acceptsChars_iff_exists, matchChars, matchTokens_iff_reads]
  · rw [accepts, hfront, acceptsChars_deep_iff]
    refine or_congr_right ⟨?_, ?_⟩
    · rintro ⟨folder, rest, hpath, hrest⟩
      refine ⟨.ofList folder, .ofList rest, String.toList_inj.mp ?_, ?_⟩
      · simpa using hpath
      · rw [accepts, String.toList_ofList, hrest]
    · rintro ⟨folder, rest, rfl, hrest⟩
      exact ⟨folder.toList, rest.toList, by simp, hrest⟩

/-! ### Literal globs -/

/-- A glob in which no character has a meaning of its own. -/
def IsLiteral (glob : List Char) : Prop :=
  ∀ c ∈ glob, c ≠ '*' ∧ c ≠ '?' ∧ c ≠ '['

instance (glob : List Char) : Decidable (IsLiteral glob) :=
  List.decidableBAll _ glob

/-- A glob without marks is read character by character. -/
theorem tokens_of_isLiteral {glob : List Char} (h : IsLiteral glob) :
    tokens glob = glob.map .char := by
  induction glob with
  | nil => rw [tokens, List.map_nil]
  | cons c glob ih =>
      obtain ⟨⟨hstar, hany, hclass⟩, hglob⟩ := List.forall_mem_cons.mp h
      rw [tokens, ih hglob]
      simp [hstar, hany, hclass]

/-- Plain characters read themselves. -/
theorem reads_map_char_iff {glob path : List Char} : Reads (glob.map .char) path ↔ path = glob := by
  constructor
  · intro h
    induction glob generalizing path with
    | nil =>
        cases h with
        | nil => rfl
    | cons c glob ih =>
        cases h with
        | char _ rest => rw [ih rest]
  · rintro rfl
    induction path with
    | nil => exact .nil
    | cons c path ih => exact .char c ih

/-- A literal glob matches itself only. -/
theorem matchChars_of_isLiteral {glob path : List Char} (h : IsLiteral glob) :
    matchChars glob path = true ↔ path = glob := by
  rw [matchChars, tokens_of_isLiteral h, matchTokens_iff_reads, reads_map_char_iff]

/-- A literal glob begins with no `**/` that could be left out. -/
theorem acceptsChars_of_isLiteral {glob path : List Char} (h : IsLiteral glob) :
    acceptsChars glob path = true ↔ path = glob := by
  rw [acceptsChars_iff_exists]
  constructor
  · rintro ⟨k, rest, rfl, hrest⟩
    cases k with
    | zero => exact (matchChars_of_isLiteral h).mp hrest
    | succ k => exact absurd rfl (h '*' List.mem_cons_self).1
  · rintro rfl
    exact ⟨0, path, rfl, (matchChars_of_isLiteral h).mpr rfl⟩

end Concordance.Glob
