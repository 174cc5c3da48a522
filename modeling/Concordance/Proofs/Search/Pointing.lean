import Concordance.Proofs.Chars.Lower
import Concordance.Proofs.Search.Ranked

/-!
# What highlights point at

A hit lists the places of the query in the lower-cased text of a field (`Search.Marks`), while a
reader looks at the text as it is written. The places *point at* the query there if they lie inside
the text and the characters found, each in lower case, spell the query.

They do so just if lower-casing keeps each of the places (`Search.pointsAt_iff_of_marks`). Every
listed place comes from a character of the text, but stands one further for each dotted capital I
before that character; and a sigma that ends a word has another lower-case form there than by
itself. Where no dotted capital I stands up to a listed place, only such a sigma breaks the law
(`Search.highlights_traced`).
-/

namespace Concordance.Search

/-- The text of a field, as it is written. -/
def Field.text (s : Symbol) : Field → List Char
  | .name => s.name.toList
  | .signature => (s.signature.getD "").toList

/-- Texts are compared in lower case. -/
theorem Field.among_keys (s : Symbol) (f : Field) :
    f.among (nameKey s) (signatureKey s) = Chars.lower (f.text s) := by
  cases f <;> rfl

/-- Places point at a query in a text: they lie inside it, and the characters there, each in lower
case, spell the query. -/
structure PointsAt (text query : List Char) (places : List Nat) : Prop where
  inside : ∀ i ∈ places, i < text.length
  spelled : (places.flatMap fun i => Chars.lower text[i]?.toList) = query

/-- How the places of a query in a lower-cased text lie in the text itself. -/
structure Traced (text query : List Char) (places : List Nat) : Prop where
  marks : Marks (Chars.lower text) query places
  pointsAt_iff : PointsAt text query places ↔ ∀ i ∈ places, Chars.Kept text i
  kept_iff : ∀ i ∈ places, Chars.dottedI ∉ text.take (i + 1) →
    (Chars.Kept text i ↔ ¬ Chars.EndsWord text i)
  source : ∀ i ∈ places, ∃ j c, Chars.ComesFrom text i j c ∧ (j = i ↔ Chars.dottedI ∉ text.take i)

/-! ### Places that are kept -/

theorem length_le_length_flatMap {places : List Nat} {f : Nat → List Char}
    (hf : ∀ i ∈ places, f i ≠ []) : places.length ≤ (places.flatMap f).length := by
  induction places with
  | nil => exact Nat.le_refl 0
  | cons i places ih =>
      obtain ⟨hi, hrest⟩ := List.forall_mem_cons.mp hf
      have hpos := List.length_pos_of_ne_nil hi
      have hle := ih hrest
      rw [List.flatMap_cons, List.length_append, List.length_cons]
      omega

/-- As many pieces as a text has characters, none of them empty, make up the text only if each piece
is one character. -/
theorem flatMap_eq_iff_map_eq {places : List Nat} {f : Nat → List Char} {query : List Char}
    (hf : ∀ i ∈ places, f i ≠ []) (hlen : query.length = places.length) :
    places.flatMap f = query ↔ places.map f = query.map fun d => [d] := by
  induction places generalizing query with
  | nil => simp [List.eq_nil_of_length_eq_zero hlen]
  | cons i places ih =>
      obtain ⟨hi, hrest⟩ := List.forall_mem_cons.mp hf
      obtain ⟨c, more, hc⟩ := List.exists_cons_of_ne_nil hi
      cases query with
      | nil => cases hlen
      | cons d query =>
          have hrestLen : query.length = places.length := Nat.succ.inj hlen
          rw [List.flatMap_cons, List.map_cons, List.map_cons, hc, List.cons_append]
          constructor
          · intro h
            obtain ⟨rfl, hback⟩ := List.cons.inj h
            -- the other pieces have a character for each that is left
            have hnone : more = [] := by
              have htotal := congrArg List.length hback
              have hle := length_le_length_flatMap hrest
              rw [List.length_append] at htotal
              exact List.eq_nil_of_length_eq_zero (by omega)
            subst hnone
            rw [(ih hrest hrestLen).mp hback]
          · intro h
            obtain ⟨hfirst, hback⟩ := List.cons.inj h
            obtain ⟨rfl, rfl⟩ := List.cons.inj hfirst
            rw [List.nil_append, (ih hrest hrestLen).mpr hback]

theorem lower_singleton_ne_nil (c : Char) : Chars.lower [c] ≠ [] := by
  intro h
  have hlen := congrArg List.length h
  rw [Chars.lower_singleton, Chars.length_lowerAt] at hlen
  split at hlen <;> cases hlen

/-- **Marks point at the query** in the text itself just if lower-casing keeps their places. -/
theorem pointsAt_iff_of_marks {text query : List Char} {places : List Nat}
    (h : Marks (Chars.lower text) query places) :
    PointsAt text query places ↔ ∀ i ∈ places, Chars.Kept text i := by
  have hlen : query.length = places.length := by
    simpa using (congrArg List.length h.spelled).symm
  have hform : (query.map fun d => [d]) = places.map fun i => (Chars.lower text)[i]?.toList := by
    have hspelled := congrArg (List.map Option.toList) h.spelled
    rw [List.map_map, List.map_map] at hspelled
    exact hspelled.symm
  -- inside the text every piece has a character
  have hne : (∀ i ∈ places, i < text.length) →
      ∀ i ∈ places, Chars.lower text[i]?.toList ≠ [] := by
    intro hinside i hi
    rw [List.getElem?_eq_getElem (hinside i hi)]
    exact lower_singleton_ne_nil _
  constructor
  · rintro ⟨hinside, hspelled⟩ i hi
    rw [flatMap_eq_iff_map_eq (hne hinside) hlen, hform, List.map_inj_left] at hspelled
    have hc := List.getElem?_eq_getElem (hinside i hi)
    refine ⟨_, hc, ?_⟩
    rw [← hspelled i hi, hc]
    rfl
  · intro hkept
    have hinside : ∀ i ∈ places, i < text.length := by
      intro i hi
      obtain ⟨c, hc, -⟩ := hkept i hi
      exact (List.getElem?_eq_some_iff.mp hc).1
    refine ⟨hinside, ?_⟩
    rw [flatMap_eq_iff_map_eq (hne hinside) hlen, hform, List.map_inj_left]
    intro i hi
    obtain ⟨c, hc, hlower⟩ := hkept i hi
    rw [hlower, hc]
    rfl

/-- Marks in a lower-cased text can be traced back to the text. -/
theorem Marks.traced {text query : List Char} {places : List Nat}
    (h : Marks (Chars.lower text) query places) : Traced text query places where
  marks := h
  pointsAt_iff := pointsAt_iff_of_marks h
  kept_iff := fun i hi hnone => Chars.kept_iff_of_undotted (h.lt_length i hi) hnone
  source := fun i hi =>
    have ⟨j, c, hfrom⟩ := Chars.exists_comesFrom (h.lt_length i hi)
    ⟨j, c, hfrom, hfrom.eq_iff⟩

/-! ### The highlights of a search -/

/-- The highlights of a score mark the query in the lower-cased text of their field. -/
theorem marks_of_score {fuzzy : Bool} {query : String} {s : Symbol} {r : Score} {m : Highlight}
    (hr : score fuzzy query s = some r) (hm : m ∈ r.highlights) :
    Marks (Chars.lower (m.field.text s)) (Chars.lower query.toList) m.indices := by
  have hverdict : Verdict _ _ _ _ (score fuzzy query s) := verdict_scoreTexts _ _ _ _
  rw [hr] at hverdict
  obtain ⟨k, hk⟩ := hverdict.shows
  obtain rfl : m = k := List.mem_singleton.mp (hk.only ▸ hm)
  exact Field.among_keys s m.field ▸ hk.marks

/-- **The highlights of a search, traced back to the text.** Whatever a text query finds, the places
it shows stem from characters of the symbol's own text and are moved by the dotted capital I's before
them; they point at the query there just if lower-casing keeps each of them. -/
theorem highlights_traced {engine : PatternEngine} {mode : Mode} {filter : Filter} {limit : Int}
    {query : String} {symbols : List Symbol} {found : List Hit} {h : Hit} {m : Highlight}
    (hmode : mode ≠ .pattern) (hfound : search engine mode filter limit query symbols = .ok found)
    (hh : h ∈ found) (hm : m ∈ h.score.highlights) :
    Traced (m.field.text h.symbol) (Chars.lower query.toList) m.indices := by
  rw [eq_take_of_search hfound] at hh
  have hmeets := (mem_ranking_iff.mp (List.mem_of_mem_take hh)).2.2
  rw [meets?, if_neg hmode] at hmeets
  split at hmeets
  · -- the empty query lists symbols without highlights
    rw [← Option.some.inj hmeets] at hm
    cases hm
  · exact (marks_of_score hmeets hm).traced

/-- A symbol whose name begins with a dotted capital I. -/
def dottedSymbol : Symbol :=
  { name := "\u0130b", kind := .function, span := default, nameSpan := default, file := "a.py",
    language := "python" }

/-- The hit of the letter behind the dotted capital I: it shows the third character of a name that
has two. -/
def dottedHit : Hit := ⟨0, dottedSymbol, .run .part .name 2 1⟩

/-- The search for the letter lists the hit. -/
theorem search_dottedSymbol (engine : PatternEngine) :
    ∃ found, search engine .plain {} 50 "b" [dottedSymbol] = .ok found ∧ dottedHit ∈ found := by
  have hmem : dottedHit ∈ ranking engine .plain {} "b" [dottedSymbol] :=
    mem_ranking_iff.mpr ⟨rfl, by decide +kernel, by
      rw [meets?, if_neg (by decide), if_neg (by decide)]
      decide +kernel⟩
  have hlen : (ranking engine .plain {} "b" [dottedSymbol]).length ≤ (50 : Int).toNat := by
    rw [length_ranking]
    exact Nat.le_trans List.countP_le_length (by decide)
  refine ⟨_, search_eq_take (not_refuses_of_ne (by decide)) 50, ?_⟩
  rw [List.take_of_length_le hlen]
  exact hmem

/-- The place that is shown comes from the second character, and points at nothing. -/
theorem highlights_traced_dotted :
    ∃ found, search plainEngine .plain {} 50 "b" [dottedSymbol] = .ok found ∧
      dottedHit ∈ found ∧
      Traced dottedSymbol.name.toList (Chars.lower "b".toList) [2] ∧
      Chars.ComesFrom dottedSymbol.name.toList 2 1 'b' ∧
      ¬ PointsAt dottedSymbol.name.toList (Chars.lower "b".toList) [2] := by
  obtain ⟨found, hfound, hmem⟩ := search_dottedSymbol plainEngine
  have htraced : Traced dottedSymbol.name.toList (Chars.lower "b".toList) [2] :=
    highlights_traced (m := ⟨.name, [2]⟩) (by decide) hfound hmem List.mem_cons_self
  refine ⟨found, hfound, hmem, htraced, ⟨by decide, .inl (by decide), by decide +kernel⟩, ?_⟩
  intro hpoints
  have hinside := hpoints.inside 2 List.mem_cons_self
  exact absurd hinside (by decide)

end Concordance.Search
