import Concordance.Grammar
import Concordance.Proofs.Roster
import Mathlib.Data.Finset.Card

/-!
# What a registry of grammars remembers

A registry is asked for grammars, for parsers and for the grammars of languages, in any order and as
often as one likes. Each request names one grammar, or none if a language has no grammar, and all
that matters about the requests made so far are these names (`GrammarRegistry.Remembers`): each of
them was looked for once, each missing one was reported once, and the first report was the only
warning (`GrammarRegistry.requests_memoised`).
-/

namespace Concordance.GrammarRegistry

/-! ### Requests -/

/-- A request: for a grammar, for a new parser, or for the grammar of a language. -/
inductive Request where
  | grammar (name : String)
  | parser (name : String)
  | language (l : Language)

/-- What a request may be answered with. -/
inductive Product where
  | grammar (name : String)
  | parser (parser : Parser)
  deriving DecidableEq

variable (isMissing : String → Bool)

namespace Request

/-- The grammar that a request asks for; a language without one asks for none. -/
def name? : Request → Option String
  | .grammar name | .parser name => some name
  | .language l => l.spec?.map LanguageSpec.grammar

/-- What a request wants of a grammar. -/
def product : Request → String → Product
  | .parser _, name => .parser ⟨name⟩
  | _, name => .grammar name

/-- What a registry makes of a request. -/
def ask (r : GrammarRegistry) : Request → Outcome Product
  | .grammar name => (r.load isMissing name).map .grammar
  | .parser name => (r.newParser isMissing name).map .parser
  | .language l => (r.loadFor isMissing l).map .grammar

/-- A request without a name of a grammar changes nothing. -/
theorem ask_of_name?_eq_none {q : Request} (h : q.name? = none) (r : GrammarRegistry) :
    q.ask isMissing r = ⟨r, none, []⟩ := by
  cases q with
  | language l =>
      have hspec : l.spec? = none := Option.map_eq_none_iff.mp h
      rw [ask, loadFor, hspec]
      rfl
  | _ => cases h

/-- However it is asked for, a grammar is loaded. -/
theorem ask_of_name?_eq_some {q : Request} {name : String} (h : q.name? = some name)
    (r : GrammarRegistry) : q.ask isMissing r = (r.load isMissing name).map q.product := by
  cases q with
  | grammar n =>
      cases h
      rfl
  | parser n =>
      cases h
      rw [ask, newParser, Outcome.map, Outcome.map, Outcome.map, Option.map_map]
      rfl
  | language l =>
      obtain ⟨spec, hspec, rfl⟩ := Option.map_eq_some_iff.mp h
      rw [ask, loadFor, hspec]
      rfl

end Request

/-! ### One request -/

/-- **What a registry remembers**, once it was asked for some grammars: which of them are there, how
many they are, and whether one of them was missing. -/
structure Remembers (r : GrammarRegistry) (names : List String) : Prop where
  loaded : ∀ name, r.loaded.get? name = if name ∈ names then some (!isMissing name) else none
  loadCount : r.loadCount = names.toFinset.card
  warned : r.warned = names.any isMissing

/-- What is reported of the grammars asked for next: those that are missing and were not asked for
before, as a warning if no other was missing. -/
def reportsOn (names next : List String) : List MissReport :=
  (next.filter fun n => isMissing n && !names.contains n).map
    (⟨if names.any isMissing then .debug else .warning, ·⟩)

variable {isMissing}

theorem remembers_nil : Remembers isMissing {} [] := ⟨fun _ => rfl, rfl, rfl⟩

variable {r : GrammarRegistry} {names : List String}

/-- A grammar that was asked for before is answered from memory. -/
theorem Remembers.load_of_mem (h : Remembers isMissing r names) {name : String}
    (hname : name ∈ names) :
    r.load isMissing name = ⟨r, if isMissing name then none else some name, []⟩ := by
  rw [load, h.loaded, if_pos hname]
  cases isMissing name <;> rfl

/-- A grammar that is asked for the first time is looked for, and reported if it is missing. -/
theorem Remembers.load_of_notMem (h : Remembers isMissing r names) {name : String}
    (hname : name ∉ names) :
    r.load isMissing name =
      ⟨{ loaded := r.loaded.put name (!isMissing name)
         loadCount := r.loadCount + 1
         warned := r.warned || isMissing name },
        if isMissing name then none else some name,
        if isMissing name then [⟨if r.warned then .debug else .warning, name⟩] else []⟩ := by
  rw [load, h.loaded, if_neg hname]
  cases isMissing name <;> rfl

/-- Whether it was asked for before or not, a grammar is found unless it is missing. -/
theorem Remembers.found_load (h : Remembers isMissing r names) (name : String) :
    (r.load isMissing name).found = if isMissing name then none else some name := by
  by_cases hname : name ∈ names
  · rw [h.load_of_mem hname]
  · rw [h.load_of_notMem hname]

/-- A grammar is reported the first time that it is asked for. -/
theorem Remembers.reports_load (h : Remembers isMissing r names) (name : String) :
    (r.load isMissing name).reports = reportsOn isMissing names [name] := by
  by_cases hname : name ∈ names
  · rw [h.load_of_mem hname]
    simp [reportsOn, hname]
  · rw [h.load_of_notMem hname, h.warned]
    cases hmissing : isMissing name <;> simp [reportsOn, hname, hmissing]

/-- **One more name.** -/
theorem Remembers.load (h : Remembers isMissing r names) (name : String) :
    Remembers isMissing (r.load isMissing name).registry (names ++ [name]) := by
  by_cases hname : name ∈ names
  · rw [h.load_of_mem hname]
    have hmem : ∀ n, n ∈ names ++ [name] ↔ n ∈ names := by
      intro n
      rw [List.mem_append, List.mem_singleton]
      exact or_iff_left_of_imp fun heq => heq ▸ hname
    refine ⟨fun n => by simp only [h.loaded, hmem], ?_, ?_⟩
    · rw [h.loadCount]
      congr 1
      ext n
      simp only [List.mem_toFinset, hmem]
    · rw [h.warned, Bool.eq_iff_iff]
      simp only [List.any_eq_true, hmem]
  · rw [h.load_of_notMem hname]
    refine ⟨fun n => ?_, ?_, ?_⟩
    · rw [Roster.get?_put, h.loaded]
      by_cases hn : n = name
      · simp [hn]
      · simp [hn]
    · have hnew : name ∉ names.toFinset := fun hmem => hname (List.mem_toFinset.mp hmem)
      have hset : (names ++ [name]).toFinset = insert name names.toFinset := by
        ext n
        simp
      rw [h.loadCount, hset, Finset.card_insert_of_notMem hnew]
    · rw [h.warned, List.any_append]
      simp

/-! ### Whole runs -/

/-- A registry in use, and all that it has reported so far. -/
structure History where
  registry : GrammarRegistry := {}
  log : List MissReport := []

variable (isMissing) in
/-- One more request. -/
def History.ask (h : History) (q : Request) : History :=
  let outcome := q.ask isMissing h.registry
  ⟨outcome.registry, h.log ++ outcome.reports⟩

variable (isMissing) in
/-- What a new registry comes to by some requests. -/
def history (requests : List Request) : History :=
  requests.foldl (History.ask isMissing) {}

/-- The grammars that some requests ask for. -/
def requested (requests : List Request) : List String :=
  requests.filterMap Request.name?

/-- One more request is asked after all others. -/
theorem history_concat (requests : List Request) (q : Request) :
    history isMissing (requests ++ [q]) = (history isMissing requests).ask isMissing q := by
  rw [history, List.foldl_append, ← history, List.foldl_cons, List.foldl_nil]

/-- It adds its name, if it has one, to those requested. -/
theorem requested_concat (requests : List Request) (q : Request) :
    requested (requests ++ [q]) = requested requests ++ q.name?.toList := by
  rw [requested, List.filterMap_append, ← requested]
  cases hname : q.name? <;> simp [hname]

/-- What a registry makes of one request, whatever came before. -/
theorem Remembers.ask (h : Remembers isMissing r names) (q : Request) :
    Remembers isMissing (q.ask isMissing r).registry (names ++ q.name?.toList) ∧
      (q.ask isMissing r).found = (q.name?.filter fun n => !isMissing n).map q.product ∧
      (q.ask isMissing r).reports = reportsOn isMissing names q.name?.toList := by
  cases hname : q.name? with
  | none =>
      rw [q.ask_of_name?_eq_none isMissing hname]
      refine ⟨?_, rfl, rfl⟩
      simpa using h
  | some name =>
      rw [q.ask_of_name?_eq_some isMissing hname]
      refine ⟨h.load name, ?_, h.reports_load name⟩
      change (r.load isMissing name).found.map q.product = _
      rw [h.found_load, Option.filter_some]
      cases isMissing name <;> rfl

/-- **After any requests** the registry remembers what was requested. -/
theorem remembers_history (requests : List Request) :
    Remembers isMissing (history isMissing requests).registry (requested requests) := by
  induction requests using List.reverseRecOn with
  | nil => exact remembers_nil
  | append_singleton requests q ih =>
      rw [history_concat, requested_concat]
      exact (ih.ask q).1

/-- **What is in the log** once some grammars were asked for: each of them that is missing, once; the
first as a warning, the others for the record. -/
structure Logged (isMissing : String → Bool) (log : List MissReport) (names : List String) : Prop where
  mem_iff : ∀ name, name ∈ log.map MissReport.grammar ↔ name ∈ names ∧ isMissing name = true
  nodup : (log.map MissReport.grammar).Nodup
  first : ∀ report ∈ log.head?, report.level = .warning
  later : ∀ report ∈ log.tail, report.level = .debug

variable {log : List MissReport}

/-- There is a report once a missing grammar was asked for. -/
theorem Logged.any_iff (h : Logged isMissing log names) :
    names.any isMissing = true ↔ log ≠ [] := by
  rw [List.any_eq_true]
  constructor
  · rintro ⟨name, hname⟩ rfl
    exact List.not_mem_nil ((h.mem_iff name).mpr hname)
  · intro hlog
    obtain ⟨report, reports, rfl⟩ := List.exists_cons_of_ne_nil hlog
    exact ⟨report.grammar, (h.mem_iff _).mp List.mem_cons_self⟩

/-- **One more name in the log.** -/
theorem Logged.concat (h : Logged isMissing log names) (name : String) :
    Logged isMissing (log ++ reportsOn isMissing names [name]) (names ++ [name]) := by
  rw [reportsOn]
  by_cases hnew : isMissing name = true ∧ name ∉ names
  · obtain ⟨hmissing, hname⟩ := hnew
    have hfilter : ([name].filter fun n => isMissing n && !names.contains n) = [name] := by
      simp [hmissing, hname]
    rw [hfilter, List.map_singleton]
    refine ⟨fun n => ?_, ?_, ?_, ?_⟩
    · rw [List.map_append, List.mem_append, h.mem_iff, List.mem_append]
      by_cases hn : n = name
      · simp [hn, hmissing]
      · simp [hn]
    · rw [List.map_append, List.nodup_append]
      refine ⟨h.nodup, by simp, ?_⟩
      rintro n hn m hm rfl
      have hsame : n = name := List.mem_singleton.mp hm
      exact hname (hsame ▸ ((h.mem_iff n).mp hn).1)
    · -- the new report comes first just if none was missing before
      cases log with
      | nil =>
          have hnone : names.any isMissing = false := by
            rw [← Bool.not_eq_true, h.any_iff]
            simp
          simp [hnone]
      | cons report reports => exact h.first
    · cases log with
      | nil => simp
      | cons report reports =>
          have hsome : names.any isMissing = true := h.any_iff.mpr (by simp)
          rw [hsome, List.cons_append, List.tail_cons]
          exact List.forall_mem_append.mpr ⟨h.later, by simp⟩
  · have hfilter : ([name].filter fun n => isMissing n && !names.contains n) = [] := by
      rw [not_and_or, not_not] at hnew
      rcases hnew with hfound | hname
      · simp [hfound]
      · simp [hname]
    rw [hfilter, List.map_nil, List.append_nil]
    refine ⟨fun n => ?_, h.nodup, h.first, h.later⟩
    rw [h.mem_iff, List.mem_append, List.mem_singleton]
    constructor
    · exact fun ⟨hn, hmissing⟩ => ⟨.inl hn, hmissing⟩
    · rintro ⟨hn | rfl, hmissing⟩
      · exact ⟨hn, hmissing⟩
      · exact ⟨by_contra fun hn => hnew ⟨hmissing, hn⟩, hmissing⟩

/-- **After any requests** the log tells of each missing grammar once. -/
theorem logged_history (requests : List Request) :
    Logged isMissing (history isMissing requests).log (requested requests) := by
  induction requests using List.reverseRecOn with
  | nil => exact ⟨by simp [history, requested], by simp [history], by simp [history],
      by simp [history]⟩
  | append_singleton requests q ih =>
      rw [history_concat, requested_concat, History.ask]
      dsimp only
      rw [((remembers_history requests).ask q).2.2]
      cases q.name? with
      | none => simpa [reportsOn] using ih
      | some name => exact ih.concat name

/-- **A registry looks for each grammar once.** At every request, after any others: the number of
looks is the number of grammars asked for so far; the answer depends on the grammar asked for alone,
and on whether it is missing; a report is made just if the grammar is missing and was not asked for
before. In the log of the whole run each missing grammar that was asked for stands once, and its first
report is the only warning. -/
theorem requests_memoised (isMissing : String → Bool) (before : List Request) (q : Request) :
    let past := history isMissing before
    let outcome := q.ask isMissing past.registry
    let names := requested before
    outcome.registry.loadCount = (requested (before ++ [q])).toFinset.card ∧
      outcome.found = (q.name?.filter fun n => !isMissing n).map q.product ∧
      outcome.reports = reportsOn isMissing names q.name?.toList ∧
      Logged isMissing past.log names := by
  intro past outcome names
  have hpast : Remembers isMissing past.registry names := remembers_history before
  obtain ⟨hremembers, hfound, hreports⟩ := hpast.ask q
  refine ⟨?_, hfound, hreports, logged_history before⟩
  rw [requested_concat]
  exact hremembers.loadCount

end Concordance.GrammarRegistry
