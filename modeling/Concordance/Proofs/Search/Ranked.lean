import Concordance.Proofs.Search.Tier
import Concordance.Search.Basic
import Mathlib.Data.List.Infix

/-!
# The order of the hits

A search is the front of a *ranking*: all hits of the query, put in order by falling points, as long
as the limit lets it be (`Search.search_eq_take`). There is a search unless the query is a pattern that
its engine refuses for another reason than that it is not well-formed (`Search.search_eq_error_iff`).
The sort keeps hits of equal points in the order of the symbols, so in a ranking every hit *precedes*
all later ones: it has more points, or as many and an earlier place
(`Search.pairwise_precedes_ranking`). No two hits precede each other, so this order leaves only one
ranking of given hits.

What a search leaves out is the rest of the ranking and has no better claim than what it lists
(`Search.search_ranked`). A fuzzy search finds what a plain one finds, with the same score, and
besides only hits of fewer points, so it lists the hits of the plain search first
(`Search.search_plain_prefix_fuzzy`). What a query finds its beginnings find, whichever comparison it
is that succeeds for them (`Search.score_narrows`).
-/

namespace Concordance.Search

/-- The points of a hit. -/
def Hit.points (h : Hit) : Nat := h.score.points

/-- One hit stands before another: it has more points, or as many and an earlier place. -/
def Hit.Precedes (h g : Hit) : Prop :=
  g.points < h.points ∨ g.points = h.points ∧ h.place < g.place

/-- How a symbol meets a query: a pattern where it matches the name first, the empty query always,
and any other query by its score. -/
def meets? (engine : PatternEngine) (mode : Mode) (query : String) (s : Symbol) : Option Score :=
  if mode = .pattern then (engine.compile query).toOption.bind fun find => scorePattern find s
  else if query = "" then some ⟨.listed, []⟩
  else score (mode == .fuzzy) query s

/-- All hits of a query, the best first. -/
def ranking (engine : PatternEngine) (mode : Mode) (filter : Filter) (query : String)
    (symbols : List Symbol) : List Hit :=
  (hits filter (meets? engine mode query) symbols).mergeSort Hit.notWorse

namespace Hit.Precedes

variable {h g : Hit}

theorem points_le (hg : h.Precedes g) : g.points ≤ h.points :=
  hg.elim Nat.le_of_lt fun heq => Nat.le_of_eq heq.1

theorem place_lt (hg : h.Precedes g) (heq : g.points = h.points) : h.place < g.place :=
  hg.elim (fun hlt => absurd heq (Nat.ne_of_lt hlt)) And.right

/-- No two hits precede each other. -/
theorem asymm (hg : h.Precedes g) : ¬ g.Precedes h := fun gh =>
  have heq := Nat.le_antisymm hg.points_le gh.points_le
  absurd (gh.place_lt heq.symm) (Nat.lt_asymm (hg.place_lt heq))

end Hit.Precedes

variable {engine : PatternEngine} {mode : Mode} {filter : Filter} {query : String}
  {symbols : List Symbol}

/-! ### The hits -/

/-- What a symbol at a place makes for a hit. -/
theorem hit_eq_some_iff {scorer : Symbol → Option Score} {s : Symbol} {place : Nat} {h : Hit} :
    (if filter.accepts s then (scorer s).map fun score => Hit.mk place s score else none) = some h ↔
      filter.accepts s = true ∧ scorer s = some h.score ∧ h.symbol = s ∧ h.place = place := by
  constructor
  · intro hh
    split at hh
    · next haccepts =>
        obtain ⟨r, hr, rfl⟩ := Option.map_eq_some_iff.mp hh
        exact ⟨haccepts, hr, rfl, rfl⟩
    · cases hh
  · rintro ⟨haccepts, hscore, rfl, rfl⟩
    rw [if_pos haccepts, hscore, Option.map_some]

/-- A hit is a symbol that passes the filter and has a score, at its place. -/
theorem mem_hits_iff {scorer : Symbol → Option Score} {h : Hit} :
    h ∈ hits filter scorer symbols ↔
      symbols[h.place]? = some h.symbol ∧ filter.accepts h.symbol = true ∧
        scorer h.symbol = some h.score := by
  unfold hits
  rw [List.mem_filterMap]
  constructor
  · rintro ⟨⟨s, place⟩, hmem, hh⟩
    obtain ⟨haccepts, hscore, rfl, rfl⟩ := hit_eq_some_iff.mp hh
    exact ⟨List.mk_mem_zipIdx_iff_getElem?.mp hmem, haccepts, hscore⟩
  · rintro ⟨hplace, haccepts, hscore⟩
    exact ⟨(h.symbol, h.place), List.mk_mem_zipIdx_iff_getElem?.mpr hplace,
      hit_eq_some_iff.mpr ⟨haccepts, hscore, rfl, rfl⟩⟩

/-- The hits are in the order of the symbols, each at a place of its own. -/
theorem pairwise_place_hits (filter : Filter) (scorer : Symbol → Option Score)
    (symbols : List Symbol) :
    (hits filter scorer symbols).Pairwise fun h g => h.place < g.place := by
  have hplaces : symbols.zipIdx.Pairwise fun a b => a.2 < b.2 := by
    rw [← List.pairwise_map (f := Prod.snd), List.zipIdx_map_snd]
    exact List.pairwise_lt_range'
  refine List.pairwise_filterMap.mpr (hplaces.imp ?_)
  intro a b hlt h hh g hg
  obtain ⟨-, -, -, hplace⟩ := hit_eq_some_iff.mp hh
  obtain ⟨-, -, -, gplace⟩ := hit_eq_some_iff.mp hg
  rw [hplace, gplace]
  exact hlt

/-- There is a hit for every symbol that passes the filter and has a score. -/
theorem length_hits (filter : Filter) (scorer : Symbol → Option Score) (symbols : List Symbol) :
    (hits filter scorer symbols).length =
      symbols.countP fun s => filter.accepts s && (scorer s).isSome := by
  conv_rhs => rw [← List.zipIdx_map_fst 0 symbols, List.countP_map]
  unfold hits
  rw [List.length_filterMap_eq_countP]
  refine List.countP_congr fun a _ => ?_
  dsimp only [Function.comp_apply]
  cases filter.accepts a.1 with
  | false => simp
  | true => simp

/-- A score that drops some results of another leaves the hits of the rest. -/
theorem hits_filter (p : Score → Bool) (scorer : Symbol → Option Score) (symbols : List Symbol) :
    hits filter (fun s => (scorer s).filter p) symbols =
      (hits filter scorer symbols).filter fun h => p h.score := by
  unfold hits
  rw [List.filter_filterMap]
  refine List.filterMap_congr fun a _ => ?_
  dsimp only
  split
  · cases scorer a.1 with
    | none => rfl
    | some r => by_cases hr : p r = true <;> simp [hr, Option.filter]
  · rfl

/-! ### Sorting by points -/

theorem Hit.notWorse_iff {h g : Hit} : h.notWorse g = true ↔ g.points ≤ h.points :=
  decide_eq_true_iff

theorem Hit.notWorse_trans (h g k : Hit) (hg : h.notWorse g = true) (gk : g.notWorse k = true) :
    h.notWorse k = true :=
  notWorse_iff.mpr ((notWorse_iff.mp gk).trans (notWorse_iff.mp hg))

theorem Hit.notWorse_total (h g : Hit) : (h.notWorse g || g.notWorse h) = true := by
  rw [Bool.or_eq_true, notWorse_iff, notWorse_iff]
  exact Nat.le_total _ _

/-- **The sort is stable**: the hits of equal points stay in their order. -/
theorem filter_points_mergeSort (l : List Hit) (v : Nat) :
    (l.mergeSort Hit.notWorse).filter (fun h => h.points = v) =
      l.filter fun h => h.points = v := by
  -- the hits of one score are in order as they stand, so the sort keeps them as a sublist
  have hsorted : (l.filter fun h => h.points = v).Pairwise fun h g => h.notWorse g = true := by
    refine List.pairwise_of_forall_mem_list fun h hh g hg => Hit.notWorse_iff.mpr ?_
    have hv := List.of_mem_filter hh
    have gv := List.of_mem_filter hg
    simp only [decide_eq_true_eq] at hv gv
    rw [hv, gv]
  have hsub := List.sublist_mergeSort Hit.notWorse_trans Hit.notWorse_total hsorted
    List.filter_sublist
  have hsub' := hsub.filter fun h => h.points = v
  rw [List.filter_filter] at hsub'
  simp only [Bool.and_self] at hsub'
  exact (hsub'.eq_of_length ((List.mergeSort_perm l _).filter _).length_eq.symm).symm

/-- Sorted hits precede one another, if those of equal points have come in the order of their
places. -/
theorem pairwise_precedes_mergeSort {l : List Hit}
    (h : l.Pairwise fun h g => h.place < g.place) :
    (l.mergeSort Hit.notWorse).Pairwise Hit.Precedes := by
  have hsorted := List.pairwise_mergeSort Hit.notWorse_trans Hit.notWorse_total l
  rw [List.pairwise_iff_forall_sublist] at hsorted ⊢
  intro a b hab
  rcases Nat.lt_or_eq_of_le (Hit.notWorse_iff.mp (hsorted hab)) with hlt | heq
  · exact .inl hlt
  · have hpair : [a, b].Sublist (l.filter fun k => k.points = a.points) := by
      have hfilter := hab.filter fun k => k.points = a.points
      rw [filter_points_mergeSort] at hfilter
      simpa [heq] using hfilter
    exact .inr ⟨heq, List.pairwise_iff_forall_sublist.mp h (hpair.trans List.filter_sublist)⟩

/-! ### Rankings -/

/-- A hit is ranked if it is the symbol at its place, is accepted by the filter, and matches with
its score. -/
theorem mem_ranking_iff {h : Hit} :
    h ∈ ranking engine mode filter query symbols ↔
      symbols[h.place]? = some h.symbol ∧ filter.accepts h.symbol = true ∧
        meets? engine mode query h.symbol = some h.score := by
  rw [ranking, List.mem_mergeSort, mem_hits_iff]

/-- In a ranking every hit precedes all later ones. -/
theorem pairwise_precedes_ranking (engine : PatternEngine) (mode : Mode) (filter : Filter)
    (query : String) (symbols : List Symbol) :
    (ranking engine mode filter query symbols).Pairwise Hit.Precedes :=
  pairwise_precedes_mergeSort (pairwise_place_hits _ _ _)

/-- The ranking has one hit for each symbol that is accepted and matches. -/
theorem length_ranking (engine : PatternEngine) (mode : Mode) (filter : Filter) (query : String)
    (symbols : List Symbol) :
    (ranking engine mode filter query symbols).length =
      symbols.countP fun s => filter.accepts s && (meets? engine mode query s).isSome := by
  rw [ranking, List.length_mergeSort, length_hits]

/-- No symbol is ranked twice. -/
theorem nodup_place_ranking (engine : PatternEngine) (mode : Mode) (filter : Filter)
    (query : String) (symbols : List Symbol) :
    ((ranking engine mode filter query symbols).map Hit.place).Nodup := by
  rw [ranking, ((List.mergeSort_perm _ _).map Hit.place).nodup_iff]
  exact List.pairwise_map.mpr ((pairwise_place_hits _ _ _).imp Nat.ne_of_lt)

/-- What turns a query down other than that it is not well-formed. -/
def Refuses (engine : PatternEngine) (mode : Mode) (query : String) (fault : PatternFault) : Prop :=
  mode = .pattern ∧ engine.compile query = .error fault ∧ fault ≠ .malformed

/-- A query that can be read scores symbols by how they meet it. -/
theorem eq_meets?_of_scorer {way : Symbol → Option Score}
    (h : scorer engine mode query = .ok way) : way = meets? engine mode query := by
  funext s
  unfold scorer at h
  unfold meets?
  split at h
  · cases hcompile : engine.compile query with
    | error fault => rw [hcompile] at h; cases h
    | ok find =>
        rw [hcompile] at h
        cases h
        rw [if_pos rfl]
        rfl
  · next hmode =>
      rw [if_neg hmode]
      by_cases hquery : query = ""
      · rw [if_pos (String.isEmpty_iff.mpr hquery)] at h
        rw [if_pos hquery, ← Except.ok.inj h]
      · rw [if_neg (fun hempty => hquery (String.isEmpty_iff.mp hempty))] at h
        rw [if_neg hquery, ← Except.ok.inj h]

/-- A query cannot be read just if it is a pattern that the engine turns down. -/
theorem scorer_eq_error_iff {fault : PatternFault} :
    scorer engine mode query = .error fault ↔
      mode = .pattern ∧ engine.compile query = .error fault := by
  unfold scorer
  split
  · cases engine.compile query with
    | error other => exact ⟨fun h => by cases h; exact ⟨rfl, rfl⟩, fun h => by cases h.2; rfl⟩
    | ok find => exact iff_of_false (fun h => nomatch h) fun h => nomatch h.2
  · next hmode =>
      refine iff_of_false (fun h => ?_) fun h => hmode h.1
      split at h <;> cases h

/-- No symbol meets a query that cannot be read. -/
theorem ranking_eq_nil_of_scorer {fault : PatternFault}
    (h : scorer engine mode query = .error fault) :
    ranking engine mode filter query symbols = [] := by
  obtain ⟨rfl, hcompile⟩ := scorer_eq_error_iff.mp h
  refine List.eq_nil_iff_forall_not_mem.mpr fun hit hhit => ?_
  have hmeets := (mem_ranking_iff.mp hhit).2.2
  rw [meets?, if_pos rfl, hcompile] at hmeets
  cases hmeets

/-- **When a search fails**: just if the query is refused, and then for that reason. -/
theorem search_eq_error_iff {limit : Int} {fault : PatternFault} :
    search engine mode filter limit query symbols = .error fault ↔
      Refuses engine mode query fault := by
  unfold search
  cases hscorer : scorer engine mode query with
  | ok way =>
      refine iff_of_false (fun h => nomatch h) fun h => ?_
      rw [scorer_eq_error_iff.mpr ⟨h.1, h.2.1⟩] at hscorer
      cases hscorer
  | error other =>
      obtain ⟨hmode, hcompile⟩ := scorer_eq_error_iff.mp hscorer
      constructor
      · intro h
        cases other with
        | malformed => cases h
        | _ => cases h; exact ⟨hmode, hcompile, by decide⟩
      · rintro ⟨-, hother, hne⟩
        obtain rfl : other = fault := Except.error.inj (hcompile.symm.trans hother)
        cases other with
        | malformed => exact absurd rfl hne
        | _ => rfl

/-- **A search is the front of the ranking**, unless its query is refused. -/
theorem search_eq_take (h : ∀ fault, ¬ Refuses engine mode query fault) (limit : Int) :
    search engine mode filter limit query symbols =
      .ok ((ranking engine mode filter query symbols).take limit.toNat) := by
  unfold search
  cases hscorer : scorer engine mode query with
  | ok way => rw [ranking, ← eq_meets?_of_scorer hscorer]
  | error fault =>
      rw [ranking_eq_nil_of_scorer hscorer, List.take_nil]
      obtain ⟨hmode, hcompile⟩ := scorer_eq_error_iff.mp hscorer
      have hfault : fault = .malformed := by
        by_contra hne
        exact h fault ⟨hmode, hcompile, hne⟩
      rw [hfault]

/-- What a search has listed is the front of the ranking. -/
theorem eq_take_of_search {limit : Int} {found : List Hit}
    (h : search engine mode filter limit query symbols = .ok found) :
    found = (ranking engine mode filter query symbols).take limit.toNat := by
  have hnot : ∀ fault, ¬ Refuses engine mode query fault := fun fault hrefuses => by
    rw [search_eq_error_iff.mpr hrefuses] at h
    cases h
  rw [search_eq_take hnot] at h
  exact (Except.ok.inj h).symm

/-- A text is never refused. -/
theorem not_refuses_of_ne (hmode : mode ≠ .pattern) (fault : PatternFault) :
    ¬ Refuses engine mode query fault := fun h => hmode h.1

/-- What a search lists: as many hits as the limit lets it, each of them a symbol that passes and
meets the query, no place twice, by falling points and in the order of the symbols where points are
equal; and what meets the query and is left out has no more points than any hit, and stands behind
each that has as many. -/
structure Ranked (engine : PatternEngine) (mode : Mode) (filter : Filter) (limit : Int)
    (query : String) (symbols : List Symbol) (found : List Hit) : Prop where
  length_eq : (found.length : Int) = min (max limit 0)
    (symbols.countP fun s => filter.accepts s && (meets? engine mode query s).isSome)
  sound : ∀ h ∈ found, symbols[h.place]? = some h.symbol ∧ filter.accepts h.symbol = true ∧
    meets? engine mode query h.symbol = some h.score
  falling : found.Pairwise fun h g => g.points ≤ h.points
  stable : found.Pairwise fun h g => g.points = h.points → h.place < g.place
  once : (found.map Hit.place).Nodup
  best : ∀ (place : Nat) (s : Symbol) (r : Score), symbols[place]? = some s →
    filter.accepts s = true → meets? engine mode query s = some r → place ∉ found.map Hit.place →
    ∀ h ∈ found, r.points ≤ h.points ∧ (r.points = h.points → h.place < place)

/-- The front of a ranking lists the best of what meets the query. -/
theorem ranked_take (engine : PatternEngine) (mode : Mode) (filter : Filter) (limit : Int)
    (query : String) (symbols : List Symbol) :
    Ranked engine mode filter limit query symbols
      ((ranking engine mode filter query symbols).take limit.toNat) := by
  have hranking := pairwise_precedes_ranking engine mode filter query symbols
  have hsub := List.take_sublist limit.toNat (ranking engine mode filter query symbols)
  have hfront := hranking.sublist hsub
  refine ⟨?_, ?_, hfront.imp Hit.Precedes.points_le, hfront.imp Hit.Precedes.place_lt,
    (nodup_place_ranking engine mode filter query symbols).sublist (hsub.map _), ?_⟩
  · rw [List.length_take, length_ranking]
    omega
  · exact fun h hh => mem_ranking_iff.mp (List.mem_of_mem_take hh)
  · intro place s r hplace haccepts hmeets hout h hh
    -- what is left out is in the rest of the ranking
    have hmem : ⟨place, s, r⟩ ∈ ranking engine mode filter query symbols :=
      mem_ranking_iff.mpr ⟨hplace, haccepts, hmeets⟩
    rw [← List.take_append_drop limit.toNat (ranking _ _ _ _ _), List.mem_append] at hmem
    have hrest := hmem.resolve_left fun hin => hout (List.mem_map_of_mem hin)
    have hprecedes := hranking.rel_of_mem_take_of_mem_drop hh hrest
    exact ⟨hprecedes.points_le, hprecedes.place_lt⟩

/-- **The best hits in a stable order.** A search fails just if its query is a pattern that the engine
refuses for another reason than that it is not well-formed, and reports that reason. Every other search
lists the best of what meets its query, and a larger limit only lists more. -/
theorem search_ranked (engine : PatternEngine) (mode : Mode) (filter : Filter) (limit : Int)
    (query : String) (symbols : List Symbol) :
    (∀ fault, search engine mode filter limit query symbols = .error fault ↔
      mode = .pattern ∧ engine.compile query = .error fault ∧ fault ≠ .malformed) ∧
    ((∀ fault, mode = .pattern → engine.compile query = .error fault → fault = .malformed) →
      ∃ found, search engine mode filter limit query symbols = .ok found ∧
        Ranked engine mode filter limit query symbols found ∧
        ∀ larger, limit ≤ larger → ∃ more,
          search engine mode filter larger query symbols = .ok more ∧ found <+: more) := by
  refine ⟨fun fault => search_eq_error_iff, fun h => ?_⟩
  have hnot : ∀ fault, ¬ Refuses engine mode query fault := fun fault hrefuses =>
    hrefuses.2.2 (h fault hrefuses.1 hrefuses.2.1)
  refine ⟨_, search_eq_take hnot limit, ranked_take engine mode filter limit query symbols, ?_⟩
  intro larger hle
  exact ⟨_, search_eq_take hnot larger, List.take_prefix_take_left (Int.toNat_le_toNat hle)⟩

/-- A function whose name has a letter twice. -/
def doubledSymbol : Symbol :=
  { name := "Aab", kind := .function, span := default, nameSpan := default, file := "a.py",
    language := "python" }

/-- The engine without names of characters. -/
def plainEngine : PatternEngine := Pattern.engine fun _ => none

/-- A letter repeated too often to count is refused, and the search fails; the same letter repeated
twice is found at the start of the name. -/
theorem search_ranked_repeated :
    search plainEngine .pattern {} 50 "a\x7b99999999999\x7d" [doubledSymbol] =
        .error .countTooLarge ∧
      search plainEngine .pattern {} 50 "a\x7b2\x7d" [doubledSymbol] =
        .ok [⟨0, doubledSymbol, .run .pattern .name 0 2⟩] ∧
      Ranked plainEngine .pattern {} 50 "a\x7b2\x7d" [doubledSymbol]
        [⟨0, doubledSymbol, .run .pattern .name 0 2⟩] := by
  have hlarge : plainEngine.compile "a\x7b99999999999\x7d" = .error .countTooLarge := rfl
  have hsmall : plainEngine.compile "a\x7b2\x7d" =
      .ok (Pattern.search (.repeated (.char .full 97) 2 (some 2) .greedy)) := rfl
  have hlist : search plainEngine .pattern {} 50 "a\x7b2\x7d" [doubledSymbol] =
      .ok [⟨0, doubledSymbol, .run .pattern .name 0 2⟩] := by
    decide +kernel
  refine ⟨((search_ranked _ _ _ _ _ _).1 _).mpr ⟨rfl, hlarge, by decide⟩, hlist, ?_⟩
  obtain ⟨found, hfound, hranked, -⟩ := (search_ranked plainEngine .pattern {} 50 "a\x7b2\x7d"
    [doubledSymbol]).2 fun fault _ herror => by rw [hsmall] at herror; cases herror
  obtain rfl : _ = found := Except.ok.inj (hlist.symm.trans hfound)
  exact hranked

/-! ### Fuzzy searches -/

/-- A plain query scores as a fuzzy one does, less what has fewer than 70 points. -/
theorem meets?_plain (engine : PatternEngine) (query : String) (hquery : query ≠ "") (s : Symbol) :
    meets? engine .plain query s = (meets? engine .fuzzy query s).filter fun r => 70 ≤ r.points := by
  simp only [meets?, reduceCtorEq, if_false, hquery]
  exact scoreTexts_plain _ _ _

/-- Where each hit precedes all later ones, those of at least so many points are the front. -/
theorem filter_points_prefix {l : List Hit} (h : l.Pairwise Hit.Precedes) (v : Nat) :
    (l.filter fun h => v ≤ h.points) <+: l := by
  induction l with
  | nil => exact List.prefix_rfl
  | cons a l ih =>
      obtain ⟨ha, hl⟩ := List.pairwise_cons.mp h
      by_cases hv : v ≤ a.points
      · rw [List.filter_cons_of_pos (by simpa using hv)]
        exact (List.prefix_cons_inj a).mpr (ih hl)
      · have hnone : (a :: l).filter (fun h => v ≤ h.points) = [] := by
          refine List.filter_eq_nil_iff.mpr fun b hb => ?_
          rcases List.mem_cons.mp hb with rfl | hb
          · simpa using hv
          · have hle := (ha b hb).points_le
            simp only [decide_eq_true_eq]
            omega
        rw [hnone]
        exact List.nil_prefix

/-- **The ranking of a plain query** is the part of the fuzzy one that has at least 70 points. -/
theorem ranking_plain (engine : PatternEngine) (filter : Filter) (hquery : query ≠ "")
    (symbols : List Symbol) :
    ranking engine .plain filter query symbols =
      (ranking engine .fuzzy filter query symbols).filter fun h => 70 ≤ h.points := by
  have hhits : hits filter (meets? engine .plain query) symbols =
      (hits filter (meets? engine .fuzzy query) symbols).filter fun h => 70 ≤ h.points := by
    rw [funext (meets?_plain engine query hquery), hits_filter]
    rfl
  have hperm : (ranking engine .plain filter query symbols).Perm
      ((ranking engine .fuzzy filter query symbols).filter fun h => 70 ≤ h.points) := by
    refine (List.mergeSort_perm _ _).trans ?_
    rw [hhits]
    exact ((List.mergeSort_perm _ _).filter _).symm
  exact hperm.eq_of_pairwise (fun h g _ _ hg gh => absurd gh hg.asymm)
    (pairwise_precedes_ranking _ _ _ _ _) ((pairwise_precedes_ranking _ _ _ _ _).filter _)

/-- **Fuzziness only appends**: the hits of a plain search, with their scores and highlights, are the
first hits of the fuzzy one. -/
theorem search_plain_prefix_fuzzy (engine : PatternEngine) (filter : Filter) (limit : Int)
    (query : String) (symbols : List Symbol) :
    ∃ strict loose, search engine .plain filter limit query symbols = .ok strict ∧
      search engine .fuzzy filter limit query symbols = .ok loose ∧ strict <+: loose := by
  refine ⟨_, _, search_eq_take (not_refuses_of_ne (by decide)) limit,
    search_eq_take (not_refuses_of_ne (by decide)) limit, ?_⟩
  by_cases hquery : query = ""
  · have hsame : meets? engine .plain query = meets? engine .fuzzy query := by
      funext s
      simp [meets?, hquery]
    rw [ranking, ranking, hsame]
  · rw [ranking_plain engine filter hquery]
    have hprefix := filter_points_prefix
      (pairwise_precedes_ranking engine .fuzzy filter query symbols) 70
    exact List.prefix_take_iff.mpr ⟨(List.take_prefix _ _).trans hprefix, List.length_take_le _ _⟩

/-! ### Longer queries -/

/-- A hit is on the name if what it shows stands there. -/
def Score.IsOnName (r : Score) : Prop := r.highlights.map Highlight.field = [.name]

/-- A query hits the name just if it is a part of it, or for a fuzzy search a subsequence. -/
theorem Verdict.isOnName_iff {fuzzy : Bool} {query name signature : List Char} {r : Score}
    (h : Verdict fuzzy query name signature (some r)) :
    r.IsOnName ↔ query <:+: name ∨ fuzzy = true ∧ query.Sublist name := by
  cases h with
  | exact heq => exact iff_of_true rfl (.inl (heq ▸ List.infix_rfl))
  | start _ hstart => exact iff_of_true rfl (.inl hstart.isInfix)
  | part _ hfirst => exact iff_of_true rfl (.inl (Chars.infix_iff_exists_firstAt.mpr ⟨_, hfirst⟩))
  | scattered hfuzzy _ hscattered _ => exact iff_of_true rfl (.inr ⟨hfuzzy, hscattered⟩)
  | signature _ hscattered _ =>
      refine iff_of_false (fun hname => nomatch hname) ?_
      rintro (hpart | ⟨-, hsub⟩)
      · exact hscattered hpart.sublist
      · exact hscattered hsub

/-- The beginning of a query that is found is found too, and on the name if the query is. -/
theorem scoreTexts_narrows {fuzzy : Bool} {a b name signature : List Char} (hab : a <+: b) {r : Score}
    (hr : scoreTexts fuzzy b name signature = some r) :
    ∃ q, scoreTexts fuzzy a name signature = some q ∧ (r.IsOnName → q.IsOnName) := by
  have hb := hr ▸ verdict_scoreTexts fuzzy b name signature
  have ha := verdict_scoreTexts fuzzy a name signature
  cases hq : scoreTexts fuzzy a name signature with
  | some q =>
      rw [hq] at ha
      refine ⟨q, rfl, fun hname => ha.isOnName_iff.mpr ?_⟩
      exact (hb.isOnName_iff.mp hname).imp hab.isInfix.trans (And.imp_right hab.sublist.trans)
  | none =>
      -- whatever the longer query is part of, the shorter one would have been found there
      obtain ⟨hpart, hfuzzy⟩ := ha.tiered.none_iff.mp hq
      have hnone := hb.tiered.none_iff.mpr ⟨fun h => hpart (hab.isInfix.trans h),
        fun h => hfuzzy ⟨h.1, h.2.imp hab.sublist.trans hab.isInfix.trans⟩⟩
      cases hnone

/-- **Typing more only narrows the result.** A symbol that a longer query finds is found by a shorter
one, and on the name if the longer query is there; so the ranking of the longer query has no symbol
that the ranking of the shorter one has not. -/
theorem score_narrows {a b : String} (ha : a ≠ "") (hb : b ≠ "")
    (hab : Chars.lower a.toList <+: Chars.lower b.toList) :
    (∀ (fuzzy : Bool) (s : Symbol) (r : Score), score fuzzy b s = some r →
      ∃ q, score fuzzy a s = some q ∧ (r.IsOnName → q.IsOnName)) ∧
    ∀ (engine : PatternEngine) (mode : Mode) (filter : Filter) (symbols : List Symbol),
      mode ≠ .pattern → ∀ h ∈ ranking engine mode filter b symbols, ∃ q,
        ⟨h.place, h.symbol, q⟩ ∈ ranking engine mode filter a symbols := by
  refine ⟨fun fuzzy s r hr => scoreTexts_narrows hab hr, ?_⟩
  intro engine mode filter symbols hmode h hh
  obtain ⟨hplace, haccepts, hmeets⟩ := mem_ranking_iff.mp hh
  rw [meets?, if_neg hmode, if_neg hb] at hmeets
  obtain ⟨q, hq, -⟩ := scoreTexts_narrows hab hmeets
  refine ⟨q, mem_ranking_iff.mpr ⟨hplace, haccepts, ?_⟩⟩
  rw [meets?, if_neg hmode, if_neg ha]
  exact hq

/-- A function with a parameter. -/
def parameterSymbol : Symbol :=
  { name := "Run", kind := .function, span := default, nameSpan := default, file := "a.py",
    language := "python", signature := some "def Run(fast)" }

/-- With its bracket the query is found in the signature only; without it, it is the name. -/
theorem score_narrows_bracket :
    score true "run(" parameterSymbol = some (.run .signature .signature 4 4) ∧
      ∃ q, score true "run" parameterSymbol = some q ∧
        ((Score.run .signature .signature 4 4).IsOnName → q.IsOnName) := by
  have hscore : score true "run(" parameterSymbol = some (.run .signature .signature 4 4) := by
    decide +kernel
  exact ⟨hscore, (score_narrows (by decide) (by decide) (by decide +kernel)).1 _ _ _ hscore⟩

end Concordance.Search
