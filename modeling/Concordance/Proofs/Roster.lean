import Concordance.Roster
import Mathlib.Data.List.Nodup

/-!
# What a roster holds

A roster is looked at through `Roster.get?`. Every change of a roster says here what it does to
that view, and `Roster.put_get?_self` is the one place where the order of the keys matters: writing
a value where it already stands changes nothing at all.
-/

namespace Concordance.Roster

variable {κ α β : Type} [DecidableEq κ]

/-- A list of pairs with distinct keys gives under a key exactly the value paired with it. -/
theorem lookup_eq_some_iff_mem {es : List (κ × α)} (hnd : (es.map Prod.fst).Nodup)
    {k : κ} {v : α} : es.lookup k = some v ↔ (k, v) ∈ es := by
  induction es with
  | nil => simp
  | cons e es ih =>
      obtain ⟨k', v'⟩ := e
      rw [List.map_cons, List.nodup_cons] at hnd
      obtain ⟨hk', hnd⟩ := hnd
      by_cases hk : k = k'
      · subst hk
        have hout : ∀ v, (k, v) ∉ es := fun v hm => hk' (List.mem_map.mpr ⟨(k, v), hm, rfl⟩)
        simp [hout, eq_comm]
      · rw [List.lookup_cons, beq_false_of_ne hk]
        simp [ih hnd, hk]

/-- What stands under a key is what is entered with it. -/
theorem get?_eq_some_iff {r : Roster κ α} {k : κ} {v : α} :
    r.get? k = some v ↔ (k, v) ∈ r.entries :=
  lookup_eq_some_iff_mem r.nodup

/-- A key is in a roster if something is found under it. -/
theorem mem_keys_iff {r : Roster κ α} {k : κ} : k ∈ r.keys ↔ ∃ v, r.get? k = some v := by
  simp [keys, get?_eq_some_iff]

@[simp]
theorem get?_empty (k : κ) : (empty : Roster κ α).get? k = none := rfl

omit [DecidableEq κ] in
@[simp]
theorem keys_map (f : α → β) (r : Roster κ α) : (r.map f).keys = r.keys := by
  simp [keys, map, Function.comp_def]

/-- Filtering by keys keeps the value of every key that passes. -/
theorem get?_filterKeys (p : κ → Bool) (r : Roster κ α) (k : κ) :
    (r.filterKeys p).get? k = if p k then r.get? k else none := by
  apply Option.ext
  intro v
  rw [get?_eq_some_iff]
  by_cases hp : p k
  · simp [filterKeys, hp, get?_eq_some_iff]
  · simp [filterKeys, hp]

/-- An erased key has no value, and every other key keeps its own. -/
theorem get?_erase (r : Roster κ α) (k k' : κ) :
    (r.erase k).get? k' = if k' = k then none else r.get? k' := by
  rw [erase, get?_filterKeys]
  by_cases hk : k' = k <;> simp [hk]

/-- The entries after a value was written: every other entry, and the new one. -/
theorem mem_entries_put {r : Roster κ α} {k k' : κ} {v v' : α} :
    (k', v') ∈ (r.put k v).entries ↔
      (k' = k ∧ v' = v) ∨ (k' ≠ k ∧ (k', v') ∈ r.entries) := by
  unfold put
  split
  next hk =>
    obtain ⟨w, hw⟩ := List.mem_map.mp hk
    constructor
    · intro hm
      obtain ⟨⟨a, b⟩, he, heq⟩ := List.mem_map.mp hm
      by_cases ha : a = k
      · simp only [ha, if_true, Prod.mk.injEq] at heq
        exact Or.inl ⟨heq.1.symm, heq.2.symm⟩
      · simp only [ha, if_false, Prod.mk.injEq] at heq
        obtain ⟨rfl, rfl⟩ := heq
        exact Or.inr ⟨ha, he⟩
    · rintro (⟨rfl, rfl⟩ | ⟨hne, he⟩)
      · exact List.mem_map.mpr ⟨w, hw.1, by simp [hw.2]⟩
      · exact List.mem_map.mpr ⟨(k', v'), he, by simp [hne]⟩
  next hk =>
    have hout : (k', v') ∈ r.entries → k' ≠ k := fun he heq =>
      hk (heq ▸ List.mem_map.mpr ⟨(k', v'), he, rfl⟩)
    simp only [List.mem_append, List.mem_singleton, Prod.mk.injEq]
    tauto

/-- A written key has the value written, and every other key keeps its own. -/
theorem get?_put (r : Roster κ α) (k k' : κ) (v : α) :
    (r.put k v).get? k' = if k' = k then some v else r.get? k' := by
  apply Option.ext
  intro v'
  rw [get?_eq_some_iff, mem_entries_put]
  by_cases hk : k' = k
  · simp [hk, eq_comm]
  · simp [hk, get?_eq_some_iff]

/-- An altered key has what was made of its value, and every other key keeps its own. -/
theorem get?_alter (r : Roster κ α) (k k' : κ) (f : Option α → α) :
    (r.alter k f).get? k' = if k' = k then some (f (r.get? k')) else r.get? k' := by
  rw [alter, get?_put]
  split
  · next heq => rw [heq]
  · rfl

/-- A key that has a value keeps it when it is written anew. -/
theorem get?_putNew (r : Roster κ α) (k k' : κ) (v : α) :
    (r.putNew k v).get? k' = (r.get? k').or (if k' = k then some v else none) := by
  unfold putNew
  split
  · next hk =>
    obtain ⟨w, hw⟩ := mem_keys_iff.mp (List.contains_iff_mem.mp hk)
    split
    · next heq => rw [heq, hw, Option.some_or]
    · rw [Option.or_none]
  · next hk =>
    rw [get?_put]
    split
    · next heq =>
      have hnone : r.get? k = none := by
        by_contra hne
        obtain ⟨w, hw⟩ := Option.ne_none_iff_exists'.mp hne
        exact hk (List.contains_iff_mem.mpr (mem_keys_iff.mpr ⟨w, hw⟩))
      rw [heq, hnone, Option.none_or]
    · rw [Option.or_none]

/-- What is there already is not replaced. -/
theorem putNew_of_mem {r : Roster κ α} {k : κ} (h : k ∈ r.keys) (v : α) : r.putNew k v = r :=
  if_pos (List.contains_iff_mem.mpr h)

/-- Writing under a new key puts it behind the others. -/
theorem keys_put (r : Roster κ α) (k : κ) (v : α) :
    (r.put k v).keys = if k ∈ r.keys then r.keys else r.keys ++ [k] := by
  by_cases hk : k ∈ r.keys
  · rw [put, dif_pos hk, if_pos hk, keys, keys_replace, ← keys]
  · rw [put, dif_neg hk, if_neg hk, keys, List.map_append, ← keys, List.map_singleton]

/-- **Writing what already stands there.** The roster stays as it is, its order included. -/
theorem put_get?_self {r : Roster κ α} {k : κ} {v : α} (h : r.get? k = some v) :
    r.put k v = r := by
  have hmem := get?_eq_some_iff.mp h
  have hkey : k ∈ r.keys := mem_keys_iff.mpr ⟨v, h⟩
  have hsame : (r.entries.map fun e => if e.1 = k then (k, v) else e) = r.entries := by
    nth_rewrite 2 [← List.map_id r.entries]
    apply List.map_congr_left
    intro e he
    dsimp only [id]
    split
    next hk =>
      have hval : r.get? k = some e.2 := get?_eq_some_iff.mpr (hk ▸ he)
      rw [h] at hval
      exact Prod.ext hk.symm (Option.some.inj hval)
    next => rfl
  ext1
  simp only [put, hkey, dif_pos, hsame]

/-- Writing under new keys, one after the other, appends the entries. -/
theorem entries_foldl_put {r : Roster κ α} {es : List (κ × α)}
    (h : ((r.entries ++ es).map Prod.fst).Nodup) :
    (es.foldl (fun r e => r.put e.1 e.2) r).entries = r.entries ++ es := by
  induction es generalizing r with
  | nil => rw [List.foldl_nil, List.append_nil]
  | cons e es ih =>
      have hkey : e.1 ∉ r.keys := by
        rw [List.map_append, List.nodup_append] at h
        exact fun hmem => h.2.2 _ hmem _ List.mem_cons_self rfl
      have hput : (r.put e.1 e.2).entries = r.entries ++ [e] := by
        rw [put, dif_neg hkey]
      rw [List.append_cons, ← hput] at h ⊢
      exact ih h

/-- A roster is the roster of its entries. -/
theorem ofList_entries (r : Roster κ α) : ofList r.entries = r := by
  ext1
  exact entries_foldl_put r.nodup

end Concordance.Roster
