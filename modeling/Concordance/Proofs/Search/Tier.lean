import Concordance.Proofs.Chars.Find
import Concordance.Search.Score
import Mathlib.Data.List.Forall2

/-!
# The tiers of a score

A query is compared with a name and a signature, all in lower case, and the first comparison that
succeeds gives the tier. `Search.verdict_scoreTexts` goes through the comparisons once and says what
holds in each case; from it follows when a query has which score, and that no two tiers can hold of
one query (`Search.score_tiers`).

A hit shows where the query stands: the places that it lists *mark* the query in the text, in
increasing order and character by character (`Search.Marks`). Where the query stands in one piece,
they are those of its first occurrence. Where its characters are scattered, they are found from the
front, each as early as it can be, and this finds the query whenever it is a subsequence of the text
(`Search.scatter_isSome_iff`). No other places that mark the query come earlier, not even for one of
its characters (`Text.scatter_leftmost`).
-/

namespace Concordance.Search

/-! ### Marked places -/

/-- Places of a text, in increasing order, at which the characters of a query stand. -/
structure Marks (text query : List Char) (places : List Nat) : Prop where
  increasing : places.Pairwise (· < ·)
  spelled : places.map (text[·]?) = query.map some

variable {text query : List Char} {places : List Nat}

/-- Marked places lie inside the text. -/
theorem Marks.lt_length (h : Marks text query places) : ∀ i ∈ places, i < text.length := by
  intro i hi
  have hmem : text[i]? ∈ query.map some := h.spelled ▸ List.mem_map_of_mem hi
  obtain ⟨c, -, hc⟩ := List.mem_map.mp hmem
  exact (List.getElem?_eq_some_iff.mp hc.symm).1

theorem marks_nil : Marks text [] [] :=
  ⟨.nil, rfl⟩

/-- One more character in front moves the marks by one. -/
theorem Marks.behind (c : Char) (h : Marks text query places) :
    Marks (c :: text) query (places.map (· + 1)) := by
  refine ⟨h.increasing.map _ fun i j hij => Nat.succ_lt_succ hij, ?_⟩
  rw [List.map_map, ← h.spelled]
  rfl

/-- The same character in front of the text and of the query is one more mark. -/
theorem Marks.cons (c : Char) (h : Marks text query places) :
    Marks (c :: text) (c :: query) (0 :: places.map (· + 1)) := by
  refine ⟨List.pairwise_cons.mpr ⟨?_, (h.behind c).increasing⟩, ?_⟩
  · intro i hi
    obtain ⟨j, -, rfl⟩ := List.mem_map.mp hi
    exact Nat.succ_pos j
  · rw [List.map_cons, List.map_cons, (h.behind c).spelled, List.getElem?_cons_zero]

/-- Where a query stands in one piece, the places of the piece mark it. -/
theorem marks_range' {n : Nat} (h : query <+: text.drop n) :
    Marks text query (List.range' n query.length) := by
  refine ⟨List.pairwise_lt_range', List.ext_getElem (by simp) ?_⟩
  intro i hleft hright
  have hi : i < query.length := by simpa using hright
  have hc := List.prefix_iff_getElem?.mp h i hi
  rw [List.getElem?_drop] at hc
  simpa using hc

/-! ### Scattered characters -/

/-- An offset only moves the places. -/
theorem scatterFrom_eq_map (n : Nat) :
    scatterFrom query text n = (scatter query text).map (List.map (· + n)) := by
  unfold scatter
  induction text generalizing query n with
  | nil => cases query <;> rfl
  | cons c text ih =>
      cases query with
      | nil => rfl
      | cons q query =>
          rw [scatterFrom, scatterFrom, ih (n + 1), ih (0 + 1), ih (n + 1), ih (0 + 1)]
          split
          · simp [Function.comp_def, Nat.add_assoc, Nat.add_comm 1 n]
          · simp [Function.comp_def, Nat.add_assoc, Nat.add_comm 1 n]

theorem scatter_nil (text : List Char) : scatter [] text = some [] := by
  cases text <;> rfl

theorem scatter_cons_nil (q : Char) (query : List Char) : scatter (q :: query) [] = none := rfl

/-- A character that opens the text is taken there. -/
theorem scatter_cons_self (c : Char) (query text : List Char) :
    scatter (c :: query) (c :: text) =
      (scatter query text).map fun places => 0 :: places.map (· + 1) := by
  rw [scatter, scatterFrom, if_pos BEq.rfl, scatterFrom_eq_map, Option.map_map]
  rfl

/-- Any other character is looked for behind the first one. -/
theorem scatter_cons_of_ne {q c : Char} (hne : q ≠ c) (query text : List Char) :
    scatter (q :: query) (c :: text) = (scatter (q :: query) text).map (List.map (· + 1)) := by
  rw [scatter, scatterFrom, if_neg (fun h => hne (eq_of_beq h)), scatterFrom_eq_map]

/-- The places found mark the query. -/
theorem marks_of_scatter (h : scatter query text = some places) : Marks text query places := by
  induction text generalizing query places with
  | nil =>
      cases query with
      | nil =>
          obtain rfl : [] = places := Option.some.inj h
          exact marks_nil
      | cons q query => cases h
  | cons c text ih =>
      cases query with
      | nil =>
          obtain rfl : [] = places := Option.some.inj h
          exact marks_nil
      | cons q query =>
          by_cases hq : q = c
          · subst hq
            rw [scatter_cons_self] at h
            obtain ⟨rest, hrest, rfl⟩ := Option.map_eq_some_iff.mp h
            exact (ih hrest).cons q
          · rw [scatter_cons_of_ne hq] at h
            obtain ⟨rest, hrest, rfl⟩ := Option.map_eq_some_iff.mp h
            exact (ih hrest).behind c

/-- **Scattered characters are found** just if they are a subsequence of the text. To take each as
early as it can be loses nothing. -/
theorem scatter_isSome_iff : (scatter query text).isSome = true ↔ query.Sublist text := by
  induction text generalizing query with
  | nil =>
      cases query with
      | nil => simp [scatter_nil]
      | cons q query => simp [scatter_cons_nil]
  | cons c text ih =>
      cases query with
      | nil => simp [scatter_nil]
      | cons q query =>
          by_cases hq : q = c
          · subst hq
            rw [scatter_cons_self, Option.isSome_map, ih, List.cons_sublist_cons]
          · rw [scatter_cons_of_ne hq, Option.isSome_map, ih]
            constructor
            · exact fun h => h.cons c
            · intro h
              cases h with
              | cons _ h => exact h
              | cons_cons => exact absurd rfl hq

/-- There are no places for a query if it is no subsequence of the text. -/
theorem scatter_eq_none_iff : scatter query text = none ↔ ¬ query.Sublist text := by
  rw [← scatter_isSome_iff, Option.not_isSome_iff_eq_none]

/-- Marks that all stand behind the first character are marks of the text behind it. -/
theorem Marks.tail {c : Char} (h : Marks (c :: text) query places) (hpos : ∀ i ∈ places, 0 < i) :
    ∃ rest, places = rest.map (· + 1) ∧ Marks text query rest := by
  obtain ⟨rest, rfl⟩ : ∃ rest : List Nat, places = rest.map (· + 1) := by
    refine ⟨places.map (· - 1), ?_⟩
    have hback : ∀ i ∈ places, i = i - 1 + 1 := fun i hi => (Nat.sub_add_cancel (hpos i hi)).symm
    rw [List.map_map]
    exact (List.map_id' places).symm.trans (List.map_congr_left hback)
  refine ⟨rest, rfl, (List.pairwise_map.mp h.increasing).imp Nat.lt_of_succ_lt_succ, ?_⟩
  rw [← h.spelled, List.map_map]
  rfl

/-- Marks of a query that has a first character: the first of them stands at that character and
before all others. -/
theorem Marks.exists_cons {q : Char} (h : Marks text (q :: query) places) :
    ∃ i rest, places = i :: rest ∧ text[i]? = some q ∧ (∀ j ∈ rest, i < j) ∧
      Marks text query rest := by
  obtain ⟨hincreasing, hspelled⟩ := h
  rw [List.map_cons, List.map_eq_cons_iff] at hspelled
  obtain ⟨i, rest, rfl, hfirst, hrest⟩ := hspelled
  obtain ⟨hlt, hincreasing⟩ := List.pairwise_cons.mp hincreasing
  exact ⟨i, rest, rfl, hfirst, hlt, hincreasing, hrest⟩

theorem forall₂_le_map_succ {first places : List Nat} (h : List.Forall₂ (· ≤ ·) first places) :
    List.Forall₂ (· ≤ ·) (first.map (· + 1)) (places.map (· + 1)) := by
  rw [List.forall₂_map_left_iff, List.forall₂_map_right_iff]
  exact h.imp fun _ _ => Nat.succ_le_succ

/-- **Nothing comes earlier.** Wherever a query is marked in a text, its characters are found, each at
its mark or before it. -/
theorem exists_scatter_le (h : Marks text query places) :
    ∃ first, scatter query text = some first ∧ List.Forall₂ (· ≤ ·) first places := by
  induction text generalizing query places with
  | nil =>
      cases query with
      | nil =>
          obtain rfl := List.map_eq_nil_iff.mp h.spelled
          exact ⟨[], rfl, .nil⟩
      | cons q query =>
          obtain ⟨i, rest, -, hi, -⟩ := h.exists_cons
          cases hi
  | cons c text ih =>
      cases query with
      | nil =>
          obtain rfl := List.map_eq_nil_iff.mp h.spelled
          exact ⟨[], rfl, .nil⟩
      | cons q query =>
          obtain ⟨i, rest, rfl, hi, hlt, hrest⟩ := h.exists_cons
          by_cases hq : q = c
          · -- the first character is taken here; the other marks stand behind it
            subst hq
            have hpos : ∀ j ∈ rest, 0 < j := fun j hj => Nat.zero_lt_of_lt (hlt j hj)
            obtain ⟨rest, rfl, hmarks⟩ := hrest.tail hpos
            obtain ⟨first, hfirst, hle⟩ := ih hmarks
            refine ⟨0 :: first.map (· + 1), by rw [scatter_cons_self, hfirst]; rfl, ?_⟩
            exact .cons (Nat.zero_le i) (forall₂_le_map_succ hle)
          · -- none of the marks is here
            have hzero : 0 < i := by
              rcases Nat.eq_zero_or_pos i with rfl | hpos
              · exact absurd (Option.some.inj hi).symm hq
              · exact hpos
            have hpos : ∀ j ∈ i :: rest, 0 < j := by
              refine List.forall_mem_cons.mpr ⟨hzero, fun j hj => ?_⟩
              exact Nat.zero_lt_of_lt (hlt j hj)
            obtain ⟨others, hothers, hmarks⟩ := h.tail hpos
            obtain ⟨first, hfirst, hle⟩ := ih hmarks
            refine ⟨first.map (· + 1), by rw [scatter_cons_of_ne hq, hfirst]; rfl, ?_⟩
            rw [hothers]
            exact forall₂_le_map_succ hle

/-! ### The comparisons in their order -/

/-- The points of a score. -/
def Score.points (r : Score) : Nat := r.tier.score

/-- What the comparisons of a query with a name and a signature come to: the first that succeeds
decides, and the ones before it have failed. -/
inductive Verdict (fuzzy : Bool) (query name signature : List Char) : Option Score → Prop
  | exact (heq : name = query) :
      Verdict fuzzy query name signature (some (.run .exact .name 0 query.length))
  | start (hne : query ≠ name) (hstart : query <+: name) :
      Verdict fuzzy query name signature (some (.run .start .name 0 query.length))
  | part {n : Nat} (hstart : ¬ query <+: name) (hfirst : Chars.FirstAt query name n) :
      Verdict fuzzy query name signature (some (.run .part .name n query.length))
  | scattered {places : List Nat} (hfuzzy : fuzzy = true) (hpart : ¬ query <:+: name)
      (hscattered : query.Sublist name) (hmarks : Marks name query places) :
      Verdict fuzzy query name signature (some ⟨.scattered, [⟨.name, places⟩]⟩)
  | signature {n : Nat} (hfuzzy : fuzzy = true) (hscattered : ¬ query.Sublist name)
      (hfirst : Chars.FirstAt query signature n) :
      Verdict fuzzy query name signature (some (.run .signature .signature n query.length))
  | none (hpart : ¬ query <:+: name)
      (hfuzzy : fuzzy = true → ¬ query.Sublist name ∧ ¬ query <:+: signature) :
      Verdict fuzzy query name signature none

/-- **What the comparisons come to**, case by case. -/
theorem verdict_scoreTexts (fuzzy : Bool) (query name signature : List Char) :
    Verdict fuzzy query name signature (scoreTexts fuzzy query name signature) := by
  unfold scoreTexts scoreName
  by_cases heq : name = query
  · rw [if_pos (beq_iff_eq.mpr heq), heq]
    exact .exact rfl
  rw [if_neg (fun h => heq (eq_of_beq h))]
  by_cases hstart : query <+: name
  · rw [if_pos (List.isPrefixOf_iff_prefix.mpr hstart)]
    exact .start (Ne.symm heq) hstart
  rw [if_neg (fun h => hstart (List.isPrefixOf_iff_prefix.mp h))]
  cases hpart : Chars.find? query name with
  | some n => exact .part hstart (Chars.find?_eq_some_iff.mp hpart)
  | none =>
      have hnot := Chars.find?_eq_none_iff.mp hpart
      cases fuzzy with
      | false => exact .none hnot fun h => absurd h Bool.false_ne_true
      | true =>
          cases hscatter : scatter query name with
          | some places =>
              exact .scattered rfl hnot (scatter_isSome_iff.mp (by rw [hscatter]; rfl))
                (marks_of_scatter hscatter)
          | none =>
              have hscattered := scatter_eq_none_iff.mp hscatter
              cases hsignature : Chars.find? query signature with
              | some n =>
                  simp only [scoreSignature, hsignature]
                  exact .signature rfl hscattered (Chars.find?_eq_some_iff.mp hsignature)
              | none =>
                  simp only [scoreSignature, hsignature]
                  exact .none hnot fun _ => ⟨hscattered, Chars.find?_eq_none_iff.mp hsignature⟩

/-- Without fuzziness only what the name has in one piece is found: the scores from 70 on. -/
theorem scoreTexts_plain (query name signature : List Char) :
    scoreTexts false query name signature =
      (scoreTexts true query name signature).filter fun r => 70 ≤ r.points := by
  unfold scoreTexts scoreName
  split
  · rfl
  split
  · rfl
  cases Chars.find? query name with
  | some n => rfl
  | none =>
      cases scatter query name with
      | some places => rfl
      | none =>
          cases hsignature : Chars.find? query signature with
          | some n => simp only [scoreSignature, hsignature]; rfl
          | none => simp only [scoreSignature, hsignature]; rfl

/-! ### The tiers -/

/-- The one of two texts that a field stands for. -/
def Field.among (name signature : List Char) : Field → List Char
  | .name => name
  | .signature => signature

/-- The places that a hit shows for a query: they mark it in the text of their field, which is the
signature in the lowest tier only, and but for scattered characters they are those of its first
occurrence. -/
structure Shows (query name signature : List Char) (r : Score) (m : Highlight) : Prop where
  only : r.highlights = [m]
  field_iff : m.field = .signature ↔ r.points = 30
  inside : ∀ i ∈ m.indices, i < (m.field.among name signature).length
  marks : Marks (m.field.among name signature) query m.indices
  first : r.points ≠ 50 → ∃ n, m.indices = List.range' n query.length ∧
    Chars.FirstAt query (m.field.among name signature) n

/-- When a query has which score. -/
structure Tiered (fuzzy : Bool) (query name signature : List Char) (found : Option Score) :
    Prop where
  exact_iff : found.map Score.points = some 100 ↔ name = query
  start_iff : found.map Score.points = some 90 ↔ query <+: name ∧ query ≠ name
  part_iff : found.map Score.points = some 70 ↔ query <:+: name ∧ ¬ query <+: name
  scattered_iff : found.map Score.points = some 50 ↔
    fuzzy = true ∧ query.Sublist name ∧ ¬ query <:+: name
  signature_iff : found.map Score.points = some 30 ↔
    fuzzy = true ∧ ¬ query.Sublist name ∧ query <:+: signature
  none_iff : found = none ↔ ¬ query <:+: name ∧
    ¬ (fuzzy = true ∧ (query.Sublist name ∨ query <:+: signature))

/-- A run of places that begins where the query first occurs shows it. -/
theorem shows_run {query name signature : List Char} {tier : Tier} {field : Field} {n : Nat}
    (hfield : field = .signature ↔ tier.score = 30)
    (hfirst : Chars.FirstAt query (field.among name signature) n) :
    Shows query name signature (.run tier field n query.length)
      ⟨field, List.range' n query.length⟩ where
  only := rfl
  field_iff := hfield
  inside := (marks_range' hfirst.here).lt_length
  marks := marks_range' hfirst.here
  first := fun _ => ⟨n, rfl, hfirst⟩

/-- Every score shows where the query was found. -/
theorem Verdict.shows {fuzzy : Bool} {query name signature : List Char} {r : Score}
    (h : Verdict fuzzy query name signature (some r)) : ∃ m, Shows query name signature r m := by
  cases h with
  | exact heq =>
      exact ⟨_, shows_run (by decide) (Chars.firstAt_zero (heq ▸ List.prefix_rfl))⟩
  | start _ hstart => exact ⟨_, shows_run (by decide) (Chars.firstAt_zero hstart)⟩
  | part _ hfirst => exact ⟨_, shows_run (by decide) hfirst⟩
  | scattered _ _ _ hmarks =>
      exact ⟨_, rfl, by simp [Score.points, Tier.score], hmarks.lt_length, hmarks,
        fun h => absurd rfl h⟩
  | signature _ _ hfirst => exact ⟨_, shows_run (by decide) hfirst⟩

theorem ne_of_not_start {query name : List Char} (h : ¬ query <+: name) : name ≠ query :=
  fun heq => h (heq ▸ List.prefix_rfl)

/-- Each case of the comparisons has its own tier. -/
theorem Verdict.tiered {fuzzy : Bool} {query name signature : List Char} {found : Option Score}
    (h : Verdict fuzzy query name signature found) : Tiered fuzzy query name signature found := by
  cases h with
  | exact heq =>
      subst heq
      constructor <;> simp [Score.run, Score.points, Tier.score]
  | start hne hstart =>
      have hpart := hstart.isInfix
      have hscattered := hpart.sublist
      constructor <;>
        simp [Score.run, Score.points, Tier.score, hne, hne.symm, hstart, hpart, hscattered]
  | part hstart hfirst =>
      have hne := ne_of_not_start hstart
      have hpart := Chars.infix_iff_exists_firstAt.mpr ⟨_, hfirst⟩
      have hscattered := hpart.sublist
      constructor <;> simp [Score.run, Score.points, Tier.score, hne, hstart, hpart, hscattered]
  | scattered hfuzzy hpart hscattered hmarks =>
      have hstart : ¬ query <+: name := fun h => hpart h.isInfix
      have hne := ne_of_not_start hstart
      constructor <;> simp [Score.points, Tier.score, hne, hstart, hpart, hscattered, hfuzzy]
  | signature hfuzzy hscattered hfirst =>
      have hpart : ¬ query <:+: name := fun h => hscattered h.sublist
      have hstart : ¬ query <+: name := fun h => hpart h.isInfix
      have hne := ne_of_not_start hstart
      have hsignature := Chars.infix_iff_exists_firstAt.mpr ⟨_, hfirst⟩
      constructor <;>
        simp [Score.run, Score.points, Tier.score, hne, hstart, hpart, hscattered, hfuzzy,
          hsignature]
  | none hpart hfuzzy =>
      have hstart : ¬ query <+: name := fun h => hpart h.isInfix
      have hne := ne_of_not_start hstart
      constructor <;> simp +contextual [hne, hstart, hpart, hfuzzy]

/-- **The tiers are exact.** Each score has its own condition on the lower-cased texts, only a query
that meets none of them is not found, and a hit shows where the query stands. -/
theorem score_tiers (fuzzy : Bool) (query : String) (s : Symbol) :
    Tiered fuzzy (Chars.lower query.toList) (nameKey s) (signatureKey s) (score fuzzy query s) ∧
      ∀ r ∈ score fuzzy query s,
        ∃ m, Shows (Chars.lower query.toList) (nameKey s) (signatureKey s) r m := by
  have h : Verdict _ _ _ _ (score fuzzy query s) := verdict_scoreTexts _ _ _ _
  refine ⟨h.tiered, fun r hr => ?_⟩
  rw [Option.mem_def.mp hr] at h
  exact h.shows

end Concordance.Search

namespace Concordance.Text

open Search

/-- **Scattered characters are found just if they are there, and leftmost.** The characters of a query
are not found in a text if and only if they are no subsequence of it. Places that are found mark the
query, one for each character in increasing order; and wherever else the query is marked, each
character is found at its mark or before it. -/
theorem scatter_leftmost (query text : String) :
    (scatter query text = none ↔ ¬ query.toList.Sublist text.toList) ∧
      ∀ places, scatter query text = some places →
        places.length = query.toList.length ∧ Marks text.toList query.toList places ∧
          ∀ others, Marks text.toList query.toList others →
            List.Forall₂ (· ≤ ·) places others := by
  refine ⟨scatter_eq_none_iff, fun places hplaces => ?_⟩
  have hmarks := marks_of_scatter hplaces
  refine ⟨?_, hmarks, fun others hothers => ?_⟩
  · simpa using congrArg List.length hmarks.spelled
  · obtain ⟨first, hfirst, hle⟩ := exists_scatter_le hothers
    obtain rfl : places = first := Option.some.inj (hplaces.symm.trans hfirst)
    exact hle

end Concordance.Text
