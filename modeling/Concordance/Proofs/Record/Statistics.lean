import Concordance.Proofs.Record.RoundTrip
import Concordance.Proofs.Roster
import Mathlib.Algebra.BigOperators.Group.List.Basic
import Mathlib.Algebra.Ring.Int.Defs
import Mathlib.Data.List.Count
import Mathlib.Data.List.Induction

/-!
# Counts are exact

The counts over the files of an index say how many files, symbols and references there are, and how
many symbols of each language and of each kind (`Statistics.Exact`). A language or a kind has a count
just if it occurs, and the counts of the languages add up to the number of symbols, as those of the
kinds do. The order of the files shows in the order of the counts only (`Statistics.SameCounts`).

What is to be shown of both lists of counts is shown of the tally of any list of keys.
-/

namespace Concordance

namespace Roster

variable {κ : Type} [DecidableEq κ]

/-- Replacing one value changes the sum of the values by the difference. -/
theorem sum_replace {es : List (κ × Int)} (hnd : (es.map Prod.fst).Nodup) {k : κ} {old : Int}
    (hmem : (k, old) ∈ es) (v : Int) :
    ((es.map fun e => if e.1 = k then (k, v) else e).map Prod.snd).sum =
      (es.map Prod.snd).sum - old + v := by
  induction es with
  | nil => cases hmem
  | cons e es ih =>
      rw [List.map_cons, List.nodup_cons] at hnd
      obtain ⟨hfresh, hnd⟩ := hnd
      rw [List.map_cons, List.map_cons, List.map_cons, List.sum_cons, List.sum_cons]
      rcases List.mem_cons.mp hmem with rfl | hmem
      · -- no other entry has the key
        have hsame : (es.map fun e => if e.1 = k then (k, v) else e) = es.map id := by
          apply List.map_congr_left
          intro e he
          have hne : e.1 ≠ k := fun heq => hfresh (List.mem_map.mpr ⟨e, he, heq⟩)
          exact if_neg hne
        rw [if_pos rfl, hsame, List.map_id]
        omega
      · have hne : e.1 ≠ k := fun heq => hfresh (heq ▸ List.mem_map_of_mem hmem)
        rw [if_neg hne, ih hnd hmem]
        omega

/-- The sum of the values after one was written. -/
theorem sum_values_put (r : Roster κ Int) (k : κ) (v : Int) :
    (r.put k v).values.sum = r.values.sum - (r.get? k).getD 0 + v := by
  by_cases hk : k ∈ r.keys
  · obtain ⟨old, hold⟩ := mem_keys_iff.mp hk
    rw [put, dif_pos hk, hold]
    exact sum_replace r.nodup (get?_eq_some_iff.mp hold) v
  · have hnone : r.get? k = none := by
      by_contra hne
      exact hk (mem_keys_iff.mpr (Option.ne_none_iff_exists'.mp hne))
    rw [put, dif_neg hk, hnone, values, List.map_append, List.sum_append]
    simp [values]

end Roster

namespace Statistics

/-! ### Tallies -/

/-- One more key is tallied after all others. -/
theorem tallies_concat (keys : List String) (key : String) :
    tallies (keys ++ [key]) = tally (tallies keys) key := by
  rw [tallies, List.foldl_append, ← tallies, List.foldl_cons, List.foldl_nil]

/-- **A tally counts.** Under a key stands how often it occurs, if it does. -/
theorem get?_tallies (keys : List String) (key : String) :
    (tallies keys).get? key = if key ∈ keys then some (keys.count key : Int) else none := by
  induction keys using List.reverseRecOn with
  | nil => rfl
  | append_singleton keys last ih =>
      rw [tallies_concat, tally, Roster.get?_alter, ih]
      by_cases hkey : key = last
      · subst hkey
        by_cases hmem : key ∈ keys
        · simp [hmem]
        · simp [hmem, List.count_eq_zero_of_not_mem hmem]
      · have hcount : (keys ++ [last]).count key = keys.count key := by
          rw [List.count_append, List.count_singleton, beq_false_of_ne (Ne.symm hkey)]
          rfl
        simp [hkey, hcount]

/-- The counts are positive, and no key that occurs is without one. -/
theorem get?_tallies_eq_some_iff {keys : List String} {key : String} {n : Int} :
    (tallies keys).get? key = some n ↔ 0 < n ∧ n = keys.count key := by
  rw [get?_tallies]
  by_cases hkey : key ∈ keys
  · have hpos : 0 < keys.count key := List.count_pos_iff.mpr hkey
    rw [if_pos hkey, Option.some.injEq]
    omega
  · rw [if_neg hkey, List.count_eq_zero_of_not_mem hkey]
    simp only [reduceCtorEq, false_iff]
    omega

/-- **The counts add up** to the number of keys. -/
theorem sum_values_tallies (keys : List String) : (tallies keys).values.sum = keys.length := by
  induction keys using List.reverseRecOn with
  | nil => rfl
  | append_singleton keys last ih =>
      rw [tallies_concat, tally, Roster.alter, Roster.sum_values_put, ih, List.length_append,
        List.length_singleton]
      omega

/-! ### The counts over files -/

/-- The symbols of some files. -/
def symbolsOf (files : Roster String FileEntry) : List Symbol :=
  files.values.flatMap FileEntry.symbols

/-- **Exact counts** over some files: how many they are and how many symbols and references they
have, and the positive numbers of symbols of each language and of each kind, which add up. -/
structure Exact (s : Statistics) (files : Roster String FileEntry) : Prop where
  files_eq : s.files = files.size
  symbols_eq : s.symbols = (files.values.map fun e => (e.symbols.length : Int)).sum
  references_eq : s.references = (files.values.map fun e => (e.references.length : Int)).sum
  sum_byLanguage : s.byLanguage.values.sum = s.symbols
  sum_byKind : s.byKind.values.sum = s.symbols
  byLanguage_iff : ∀ language n, s.byLanguage.get? language = some n ↔
    0 < n ∧ n = (symbolsOf files).countP fun symbol => symbol.language = language
  byKind_iff : ∀ key n, s.byKind.get? key = some n ↔
    ∃ kind : SymbolKind, kind.name = key ∧
      0 < n ∧ n = (symbolsOf files).countP fun symbol => symbol.kind = kind

/-- Kinds of one name are one kind. -/
theorem name_kind_injective : Function.Injective SymbolKind.name := by
  intro kind kind' h
  rw [← SymbolKind.ofName_name kind, h, SymbolKind.ofName_name]

theorem length_flatMap_eq_sum {α : Type} (part : FileEntry → List α) (entries : List FileEntry) :
    ((entries.flatMap part).length : Int) = (entries.map fun e => ((part e).length : Int)).sum := by
  induction entries with
  | nil => rfl
  | cons e entries ih =>
      rw [List.flatMap_cons, List.length_append, List.map_cons, List.sum_cons, ← ih]
      omega

theorem flatMap_map_symbols (f : Symbol → String) (files : Roster String FileEntry) :
    (files.values.flatMap fun e => e.symbols.map f) = (symbolsOf files).map f := by
  rw [symbolsOf, List.map_flatMap]

/-- Keys that symbols give are counted by the symbols that give them. -/
theorem count_map_symbols (f : Symbol → String) (key : String) (symbols : List Symbol) :
    (symbols.map f).count key = symbols.countP fun symbol => f symbol = key := by
  rw [List.count, List.countP_map]
  rfl

/-- Symbols of one kind are those whose kind has its name. -/
theorem countP_name_eq (kind : SymbolKind) (symbols : List Symbol) :
    (symbols.countP fun symbol => symbol.kind.name = kind.name) =
      symbols.countP fun symbol => symbol.kind = kind := by
  refine List.countP_congr fun symbol _ => ?_
  simp [name_kind_injective.eq_iff]

/-- **The counts over the files of an index are exact.** -/
theorem exact_ofEntries (files : Roster String FileEntry) : (ofEntries files.values).Exact files where
  files_eq := by
    change (files.values.length : Int) = files.size
    rw [Roster.values, List.length_map, Roster.size]
  symbols_eq := length_flatMap_eq_sum _ _
  references_eq := length_flatMap_eq_sum _ _
  sum_byLanguage := by
    change (tallies _).values.sum = ((symbolsOf files).length : Int)
    rw [sum_values_tallies, flatMap_map_symbols, List.length_map]
  sum_byKind := by
    change (tallies _).values.sum = ((symbolsOf files).length : Int)
    rw [sum_values_tallies, flatMap_map_symbols, List.length_map]
  byLanguage_iff := by
    intro language n
    change (tallies _).get? language = some n ↔ _
    rw [get?_tallies_eq_some_iff, flatMap_map_symbols, count_map_symbols]
  byKind_iff := by
    intro key n
    change (tallies _).get? key = some n ↔ _
    rw [get?_tallies_eq_some_iff, flatMap_map_symbols, count_map_symbols]
    constructor
    · rintro ⟨hpos, hcount⟩
      -- a count that is not zero is that of the kind of some symbol
      have hsome : 0 < (symbolsOf files).countP fun symbol => symbol.kind.name = key := by omega
      obtain ⟨symbol, -, hkey⟩ := List.countP_pos_iff.mp hsome
      have hname := of_decide_eq_true hkey
      subst hname
      exact ⟨symbol.kind, rfl, hpos, by rw [hcount, countP_name_eq]⟩
    · rintro ⟨kind, rfl, hpos, hcount⟩
      exact ⟨hpos, by rw [hcount, countP_name_eq]⟩

/-- The same counts, in whatever order they stand. -/
structure SameCounts (s t : Statistics) : Prop where
  files : s.files = t.files
  symbols : s.symbols = t.symbols
  references : s.references = t.references
  byLanguage : ∀ language, s.byLanguage.get? language = t.byLanguage.get? language
  byKind : ∀ key, s.byKind.get? key = t.byKind.get? key

/-- The tallies do not depend on the order of the keys. -/
theorem get?_tallies_of_perm {keys keys' : List String} (h : keys.Perm keys') (key : String) :
    (tallies keys).get? key = (tallies keys').get? key := by
  rw [get?_tallies, get?_tallies, h.count_eq]
  simp only [h.mem_iff]

/-- **The order of the files does not matter.** -/
theorem sameCounts_of_perm {entries entries' : List FileEntry} (h : entries.Perm entries') :
    SameCounts (ofEntries entries) (ofEntries entries') where
  files := congrArg Int.ofNat h.length_eq
  symbols := congrArg Int.ofNat (h.flatMap_right _).length_eq
  references := congrArg Int.ofNat (h.flatMap_right _).length_eq
  byLanguage := get?_tallies_of_perm (h.flatMap_right _)
  byKind := get?_tallies_of_perm (h.flatMap_right _)

end Statistics

end Concordance
