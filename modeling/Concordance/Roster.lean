/-!
# Rosters

A roster holds values under distinct keys and remembers the order in which the keys first came.
Writing under a key it already has replaces the value in place; an erased key that is written again
goes to the end.
-/

namespace Concordance

/-- Values under distinct keys, in the order in which the keys came. -/
@[ext]
structure Roster (κ α : Type) where
  entries : List (κ × α)
  nodup : (entries.map Prod.fst).Nodup

namespace Roster

variable {κ α β : Type}

/-- The roster without entries. -/
def empty : Roster κ α := ⟨[], List.nodup_nil⟩

instance : Inhabited (Roster κ α) := ⟨empty⟩

/-- The keys in order. -/
def keys (r : Roster κ α) : List κ := r.entries.map Prod.fst

/-- The values in order. -/
def values (r : Roster κ α) : List α := r.entries.map Prod.snd

/-- How many entries there are. -/
def size (r : Roster κ α) : Nat := r.entries.length

/-- The roster with every value replaced by its image. -/
def map (f : α → β) (r : Roster κ α) : Roster κ β :=
  ⟨r.entries.map fun e => (e.1, f e.2), by
    have h : (r.entries.map fun e => (e.1, f e.2)).map Prod.fst = r.entries.map Prod.fst := by
      simp [Function.comp_def]
    exact h ▸ r.nodup⟩

/-- The entries whose key satisfies `p`. -/
def filterKeys (p : κ → Bool) (r : Roster κ α) : Roster κ α :=
  ⟨r.entries.filter fun e => p e.1,
    r.nodup.sublist (List.Sublist.map Prod.fst List.filter_sublist)⟩

variable [DecidableEq κ]

/-- The value under a key. -/
def get? (r : Roster κ α) (k : κ) : Option α := r.entries.lookup k

/-- Whether a key has an entry. -/
def contains (r : Roster κ α) (k : κ) : Bool := r.keys.contains k

/-- The roster without the entry of a key. -/
def erase (r : Roster κ α) (k : κ) : Roster κ α := r.filterKeys fun k' => !(k' == k)

/-- Replacing what stands under a key leaves the keys as they are. -/
theorem keys_replace (k : κ) (v : α) (es : List (κ × α)) :
    (es.map fun e => if e.1 = k then (k, v) else e).map Prod.fst = es.map Prod.fst := by
  induction es with
  | nil => rfl
  | cons e es ih => by_cases h : e.1 = k <;> simp_all

/-- Writes a value under a key: in the place of the old one, or at the end. -/
def put (r : Roster κ α) (k : κ) (v : α) : Roster κ α :=
  if h : k ∈ r.keys then
    ⟨r.entries.map fun e => if e.1 = k then (k, v) else e, by
      rw [keys_replace]
      exact r.nodup⟩
  else
    ⟨r.entries ++ [(k, v)], by
      rw [List.map_append, List.nodup_append]
      refine ⟨r.nodup, by simp, ?_⟩
      intro a ha b hb
      simp only [List.map_cons, List.map_nil, List.mem_singleton] at hb
      subst hb
      exact fun e => h (e ▸ ha)⟩

/-- Writes under a key what `f` makes of the value there. -/
def alter (r : Roster κ α) (k : κ) (f : Option α → α) : Roster κ α :=
  r.put k (f (r.get? k))

/-- The roster of a list of entries; of two entries with one key the later value counts. -/
def ofList (es : List (κ × α)) : Roster κ α :=
  es.foldl (fun r e => r.put e.1 e.2) empty

/-- Writes a value under a key that has none yet. -/
def putNew (r : Roster κ α) (k : κ) (v : α) : Roster κ α :=
  if r.contains k then r else r.put k v

end Roster

end Concordance
