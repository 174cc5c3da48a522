/-!
# Attempts

A computation that may fail and that came to a result came to one at each of its steps. A list of
attempts comes to results if each of them does, and else fails as the first of them that fails. A fold
of steps that may fail goes on from where its first steps came to.
-/

namespace Concordance.Attempt

variable {ε α β : Type}

@[simp]
theorem pure_eq_ok (a : α) : (pure a : Except ε α) = .ok a := rfl

@[simp]
theorem ok_bind (a : α) (f : α → Except ε β) : (Except.ok a >>= f) = f a := rfl

/-- The steps of an attempt that came to a result. -/
theorem exists_of_bind_eq_ok {x : Except ε α} {f : α → Except ε β} {b : β}
    (h : x >>= f = .ok b) : ∃ a, x = .ok a ∧ f a = .ok b := by
  cases x with
  | error e => cases h
  | ok a => exact ⟨a, rfl, h⟩

/-- Attempts that all come to a result come to the list of the results. -/
theorem mapM_eq_ok {f : α → Except ε β} {xs : List α} {g : α → β}
    (h : ∀ x ∈ xs, f x = .ok (g x)) : xs.mapM f = .ok (xs.map g) := by
  induction xs with
  | nil => rfl
  | cons x xs ih =>
      obtain ⟨hx, hxs⟩ := List.forall_mem_cons.mp h
      rw [List.mapM_cons, hx, ih hxs]
      rfl

/-- Each result of a list of attempts is that of one of them. -/
theorem exists_of_mem_mapM {f : α → Except ε β} {xs : List α} {ys : List β}
    (h : xs.mapM f = .ok ys) {y : β} (hy : y ∈ ys) : ∃ x ∈ xs, f x = .ok y := by
  induction xs generalizing ys with
  | nil =>
      cases h
      cases hy
  | cons x xs ih =>
      rw [List.mapM_cons] at h
      obtain ⟨z, hz, h⟩ := exists_of_bind_eq_ok h
      obtain ⟨zs, hzs, h⟩ := exists_of_bind_eq_ok h
      cases h
      rcases List.mem_cons.mp hy with rfl | hy
      · exact ⟨x, List.mem_cons_self, hz⟩
      · obtain ⟨w, hw, hwy⟩ := ih hzs hy
        exact ⟨w, List.mem_cons_of_mem x hw, hwy⟩

/-- A list of attempts comes to results only if each of them does. -/
theorem forall_of_mapM_eq_ok {f : α → Except ε β} {xs : List α} {ys : List β}
    (h : xs.mapM f = .ok ys) : ∀ x ∈ xs, ∃ y, f x = .ok y := by
  induction xs generalizing ys with
  | nil => exact fun x hx => by cases hx
  | cons x xs ih =>
      rw [List.mapM_cons] at h
      obtain ⟨y, hy, h⟩ := exists_of_bind_eq_ok h
      obtain ⟨_, hys, -⟩ := exists_of_bind_eq_ok h
      exact List.forall_mem_cons.mpr ⟨⟨y, hy⟩, ih hys⟩

/-- Attempts that all come to a result come to one together. -/
theorem exists_mapM_eq_ok {f : α → Except ε β} {xs : List α} (h : ∀ x ∈ xs, ∃ y, f x = .ok y) :
    ∃ ys, xs.mapM f = .ok ys := by
  induction xs with
  | nil => exact ⟨[], rfl⟩
  | cons x xs ih =>
      obtain ⟨⟨y, hy⟩, hxs⟩ := List.forall_mem_cons.mp h
      obtain ⟨ys, hys⟩ := ih hxs
      exact ⟨y :: ys, by rw [List.mapM_cons, hy, hys]; rfl⟩

/-- A list of attempts fails as the first of them that fails. -/
theorem exists_of_mapM_eq_error {f : α → Except ε β} {xs : List α} {e : ε}
    (h : xs.mapM f = .error e) :
    ∃ first x rest, xs = first ++ x :: rest ∧ f x = .error e ∧ ∀ a ∈ first, ∃ b, f a = .ok b := by
  induction xs with
  | nil => cases h
  | cons x xs ih =>
      rw [List.mapM_cons] at h
      cases hx : f x with
      | error e' =>
          rw [hx] at h
          cases h
          exact ⟨[], x, xs, rfl, hx, fun a ha => by cases ha⟩
      | ok y =>
          rw [hx, ok_bind] at h
          have hxs : xs.mapM f = .error e := by
            cases hxs : xs.mapM f with
            | error e' =>
                rw [hxs] at h
                cases h
                rfl
            | ok ys =>
                rw [hxs] at h
                cases h
          obtain ⟨first, w, rest, rfl, hw, hfirst⟩ := ih hxs
          exact ⟨x :: first, w, rest, rfl, hw, List.forall_mem_cons.mpr ⟨⟨y, hx⟩, hfirst⟩⟩

/-- A list of attempts fails with the first one that fails. -/
theorem mapM_append_of_error {f : α → Except ε β} {first : List α} {x : α} {e : ε}
    (hfirst : ∀ a ∈ first, ∃ b, f a = .ok b) (hx : f x = .error e) (rest : List α) :
    (first ++ x :: rest).mapM f = .error e := by
  obtain ⟨ys, hys⟩ := exists_mapM_eq_ok hfirst
  rw [List.mapM_append, hys, ok_bind, List.mapM_cons, hx]
  rfl

/-- Attempts that can fail in one way only fail together if one of them does. -/
theorem mapM_eq_error {f : α → Except ε β} {xs : List α} {e : ε}
    (h : ∀ x ∈ xs, f x = .error e ∨ ∃ y, f x = .ok y) (hfail : ∃ x ∈ xs, f x = .error e) :
    xs.mapM f = .error e := by
  cases hxs : xs.mapM f with
  | ok ys =>
      obtain ⟨x, hx, hfail⟩ := hfail
      obtain ⟨y, hy⟩ := forall_of_mapM_eq_ok hxs x hx
      rw [hfail] at hy
      cases hy
  | error e' =>
      obtain ⟨first, x, rest, rfl, hx, -⟩ := exists_of_mapM_eq_error hxs
      rcases h x (List.mem_append_right _ List.mem_cons_self) with he | ⟨y, hy⟩
      · rw [hx] at he
        cases he
        rfl
      · rw [hx] at hy
        cases hy

/-- Attempts that agree on all that is tried give the same. -/
theorem mapM_congr {f g : α → Except ε β} {xs : List α} (h : ∀ x ∈ xs, f x = g x) :
    xs.mapM f = xs.mapM g := by
  induction xs with
  | nil => rfl
  | cons x xs ih =>
      obtain ⟨hx, hxs⟩ := List.forall_mem_cons.mp h
      rw [List.mapM_cons, List.mapM_cons, hx, ih hxs]

/-- Attempts whose results are worked on, each with what it was an attempt at. -/
theorem mapM_map {γ : Type} (f : α → Except ε β) (g : α → β → γ) (xs : List α) :
    xs.mapM (fun x => (f x).map (g x)) = (xs.mapM f).map (List.zipWith g xs) := by
  induction xs with
  | nil => rfl
  | cons x xs ih =>
      rw [List.mapM_cons, List.mapM_cons, ih]
      cases f x with
      | error e => rfl
      | ok y =>
          cases xs.mapM f with
          | error e => rfl
          | ok ys => rfl

/-! ### Folds that may fail -/

section Fold

variable {σ : Type} {f : σ → α → Option σ} {s s' : σ}

/-- One step of a fold that did not fail. -/
theorem foldlM_cons_of_some {x : α} (h : f s x = some s') (xs : List α) :
    (x :: xs).foldlM f s = xs.foldlM f s' := by
  rw [List.foldlM_cons, h, Option.bind_eq_bind, Option.bind_some]

/-- Several steps of a fold that did not fail. -/
theorem foldlM_append_of_some {xs : List α} (h : xs.foldlM f s = some s') (ys : List α) :
    (xs ++ ys).foldlM f s = ys.foldlM f s' := by
  rw [List.foldlM_append, h, Option.bind_eq_bind, Option.bind_some]

end Fold

end Concordance.Attempt
