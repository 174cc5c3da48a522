import Concordance.Lock

/-!
# One writer at a time

The writers of an index ask one file for its lock, in any order and as often as they like. A lock that
nobody has asked for is free. Whatever is done after that, it is free and nobody believes to hold it,
or it is taken and exactly one writer does (`Lock.HeldBy`): one action keeps it so
(`Lock.HeldBy.exists_act`), and hence every run of actions (`Lock.exists_heldBy_run`).

So what a writer believes is what the file knows, and all that can happen to a writer is settled by
who holds the lock (`Lock.one_writer_at_a_time`).
-/

namespace Concordance

/-- The text of a refusal tells why the lock is refused. -/
theorem LockRefusal.message_inj {file : Path} {r r' : LockRefusal} :
    r.message file = r'.message file ↔ r = r' := by
  have hne (text : String) : "Index lock already held: " ++ text ≠
      "Index is locked by another writer: " ++ text := by
    intro h
    have hlength := congrArg (fun s => s.toList.length) h
    simp at hlength
  refine ⟨fun h => ?_, congrArg _⟩
  unfold LockRefusal.message at h
  cases r <;> cases r'
  case alreadyHeld.heldElsewhere => exact absurd h (hne file.toText)
  case heldElsewhere.alreadyHeld => exact absurd h.symm (hne file.toText)
  all_goals rfl

/-- A writer that is told a text is refused for the reason that the text gives. -/
theorem LockRefusal.map_message_eq_some_iff (file : Path) (r : LockRefusal)
    {x : Option LockRefusal} : x.map (message file) = some (r.message file) ↔ x = some r := by
  cases x with
  | none => exact iff_of_false (by simp) (by simp)
  | some r' => rw [Option.map_some, Option.some_inj, Option.some_inj, message_inj]

namespace Lock

variable {κ : Type} [DecidableEq κ] {l : Lock κ} {holder : Option κ} {who a : κ}

/-- The lock after some steps, each an action of one writer. -/
def run (l : Lock κ) (steps : List (κ × Action)) : Lock κ :=
  steps.foldl (fun l step => (l.act step.1 step.2).after) l

/-- Who holds a lock: nobody and it is free, or one writer and it is taken. -/
inductive HeldBy : Lock κ → Option κ → Prop where
  | nobody : HeldBy ⟨false, []⟩ none
  | one (who : κ) : HeldBy ⟨true, [who]⟩ (some who)

namespace HeldBy

/-- The one who holds a lock is its holder. -/
theorem holds_iff (h : l.HeldBy holder) : l.holds a = true ↔ holder = some a := by
  cases h with
  | nobody => simp [holds]
  | one who => simp [holds, eq_comm]

/-- What a writer is told who asks for the lock. -/
theorem acquire_eq (h : l.HeldBy holder) (who : κ) :
    l.acquire who = holder.elim (.ok ⟨true, [who]⟩) fun a =>
      .error (if a = who then .alreadyHeld else .heldElsewhere) := by
  cases h with
  | nobody => simp [acquire, holds]
  | one a =>
      by_cases ha : a = who
      · simp [acquire, holds, ha]
      · simp [acquire, holds, ha, Ne.symm ha]

/-- A lock is freed by the writer that holds it, and by no other. -/
theorem release_eq (h : l.HeldBy holder) (who : κ) :
    l.release who = if holder = some who then ⟨false, []⟩ else l := by
  cases h with
  | nobody => simp [release, holds]
  | one a =>
      by_cases ha : a = who
      · simp [release, holds, ha]
      · simp [release, holds, ha, Ne.symm ha]

/-- **One action.** Whatever a writer does with a lock, nobody or one writer holds it afterwards. -/
theorem exists_act (h : l.HeldBy holder) (who : κ) (action : Action) :
    ∃ holder', (l.act who action).after.HeldBy holder' := by
  cases action with
  | acquire =>
      rw [act, h.acquire_eq]
      cases holder with
      | none => exact ⟨_, .one who⟩
      | some a => exact ⟨_, h⟩
  | release =>
      rw [act, h.release_eq]
      split
      · exact ⟨_, .nobody⟩
      · exact ⟨_, h⟩
  | hold =>
      rw [act, h.acquire_eq]
      cases holder with
      | none =>
          refine ⟨none, ?_⟩
          rw [Option.elim_none]
          dsimp only
          rw [(HeldBy.one who).release_eq, if_pos rfl]
          exact .nobody
      | some a => exact ⟨_, h⟩

end HeldBy

/-- **A whole run.** From a free lock on, nobody or one writer holds it. -/
theorem exists_heldBy_run (steps : List (κ × Action)) :
    ∃ holder, (run ({} : Lock κ) steps).HeldBy holder := by
  suffices hrun : ∀ (l : Lock κ) (holder : Option κ), l.HeldBy holder →
      ∃ holder', (l.run steps).HeldBy holder' from hrun _ _ .nobody
  induction steps with
  | nil => exact fun l holder h => ⟨holder, h⟩
  | cons step steps ih =>
      intro l holder h
      obtain ⟨holder', h'⟩ := h.exists_act step.1 step.2
      exact ih _ holder' h'

/-- All that can happen to the writers of one lock, in terms of who holds it. -/
structure Exclusive (l : Lock κ) : Prop where
  /-- No two writers hold the lock. -/
  atMostOne : ∀ a b, l.holds a = true → l.holds b = true → a = b
  /-- Who asks for the lock gets it if and only if nobody holds it. -/
  granted_iff : ∀ who, (l.act who .acquire).refusal = none ↔ ∀ a, l.holds a = false
  /-- Who gets the lock holds it, alone. -/
  granted : ∀ who, (l.act who .acquire).refusal = none →
    ∀ a, (l.act who .acquire).after.holds a = true ↔ a = who
  /-- Who holds the lock is told so, and nobody else. -/
  alreadyHeld_iff : ∀ who file,
    (l.act who .acquire).refusal.map (LockRefusal.message file) =
        some ("Index lock already held: " ++ file.toText) ↔
      l.holds who = true
  /-- Where another writer holds the lock one is told so, and only there. -/
  heldElsewhere_iff : ∀ who file,
    (l.act who .acquire).refusal.map (LockRefusal.message file) =
        some ("Index is locked by another writer: " ++ file.toText) ↔
      ∃ a, a ≠ who ∧ l.holds a = true
  /-- To hold a lock for a while is refused like taking it. Inside, one writer holds the lock, and
  afterwards nobody does. -/
  hold : ∀ who, (l.act who .hold).refusal = (l.act who .acquire).refusal ∧
    ((l.act who .hold).refusal = none →
      (∃ m, (l.act who .hold).inside = some m ∧ ∀ a, m.holds a = true ↔ a = who) ∧
        ∀ a, (l.act who .hold).after.holds a = false)
  /-- Who is refused changes nothing. -/
  refused : ∀ who r, (l.act who .acquire).refusal = some r →
    (l.act who .acquire).after = l ∧ (l.act who .hold).after = l ∧ (l.act who .hold).inside = none
  /-- Who does not hold the lock cannot free it. -/
  notReleased : ∀ who, l.holds who = false → (l.act who .release).after = l
  /-- Once the lock is freed by the writer that holds it, nobody does, and anyone can take it. -/
  released : ∀ who, l.holds who = true →
    ∀ a, (l.act who .release).after.holds a = false ∧
      ((l.act who .release).after.act a .acquire).refusal = none

namespace HeldBy

/-- Who asks for the lock is refused if someone holds it, and told who. -/
theorem refusal_acquire (h : l.HeldBy holder) (who : κ) :
    (l.act who .acquire).refusal =
      holder.map fun a => if a = who then .alreadyHeld else .heldElsewhere := by
  rw [act, h.acquire_eq]
  cases holder with
  | none => rfl
  | some a => rfl

/-- Holding a lock for a while is refused as taking it is. -/
theorem refusal_hold (h : l.HeldBy holder) (who : κ) :
    (l.act who .hold).refusal = (l.act who .acquire).refusal := by
  rw [act, act, h.acquire_eq]
  cases holder with
  | none => rfl
  | some a => rfl

/-- A lock is granted if nobody holds it. -/
theorem refusal_eq_none_iff (h : l.HeldBy holder) (who : κ) :
    (l.act who .acquire).refusal = none ↔ holder = none := by
  rw [h.refusal_acquire, Option.map_eq_none_iff]

/-- Whoever holds the lock is told so. -/
theorem alreadyHeld_iff (h : l.HeldBy holder) (who : κ) :
    (l.act who .acquire).refusal = some .alreadyHeld ↔ holder = some who := by
  rw [h.refusal_acquire]
  cases holder with
  | none => simp
  | some a => by_cases ha : a = who <;> simp [ha]

/-- Whoever asks for a lock that someone else holds is told so. -/
theorem heldElsewhere_iff (h : l.HeldBy holder) (who : κ) :
    (l.act who .acquire).refusal = some .heldElsewhere ↔ ∃ a, a ≠ who ∧ holder = some a := by
  rw [h.refusal_acquire]
  cases holder with
  | none => simp
  | some a => by_cases ha : a = who <;> simp [ha]

/-- Who is refused leaves the lock as it is. -/
theorem after_of_refusal (h : l.HeldBy holder) {r : LockRefusal}
    (hrefused : (l.act who .acquire).refusal = some r) :
    (l.act who .acquire).after = l ∧ (l.act who .hold).after = l ∧
      (l.act who .hold).inside = none := by
  rw [h.refusal_acquire] at hrefused
  rw [act, act, h.acquire_eq]
  cases holder with
  | none => cases hrefused
  | some a => exact ⟨rfl, rfl, rfl⟩

/-- **Who holds a lock settles what can happen to it.** -/
theorem exclusive (h : l.HeldBy holder) : l.Exclusive where
  atMostOne a b ha hb := by
    rw [h.holds_iff] at ha hb
    exact Option.some.inj (ha.symm.trans hb)
  granted_iff who := by
    rw [h.refusal_eq_none_iff, Option.eq_none_iff_forall_ne_some]
    exact forall_congr' fun a => by rw [Ne, ← h.holds_iff, Bool.not_eq_true]
  granted who hgranted a := by
    obtain rfl := (h.refusal_eq_none_iff who).mp hgranted
    rw [act, h.acquire_eq]
    exact (HeldBy.one who).holds_iff.trans (by rw [Option.some_inj, eq_comm])
  alreadyHeld_iff who file := by
    rw [h.holds_iff, ← h.alreadyHeld_iff]
    exact LockRefusal.map_message_eq_some_iff file .alreadyHeld
  heldElsewhere_iff who file := by
    simp only [h.holds_iff]
    rw [← h.heldElsewhere_iff]
    exact LockRefusal.map_message_eq_some_iff file .heldElsewhere
  hold who := by
    refine ⟨h.refusal_hold who, fun hgranted => ?_⟩
    obtain rfl := (h.refusal_eq_none_iff who).mp (h.refusal_hold who ▸ hgranted)
    have hheld := HeldBy.one who
    rw [act, h.acquire_eq]
    refine ⟨⟨_, rfl, fun a => hheld.holds_iff.trans (by rw [Option.some_inj, eq_comm])⟩, fun a => ?_⟩
    rw [Option.elim_none]
    dsimp only
    rw [hheld.release_eq, if_pos rfl]
    rfl
  refused who r hrefused := h.after_of_refusal hrefused
  notReleased who hother := by
    have hne : holder ≠ some who := fun heq => by simp [h.holds_iff.mpr heq] at hother
    exact (h.release_eq who).trans (if_neg hne)
  released who hholds a := by
    have hfree : (l.act who .release).after = ⟨false, []⟩ :=
      (h.release_eq who).trans (if_pos (h.holds_iff.mp hholds))
    rw [hfree]
    exact ⟨rfl, (HeldBy.nobody.refusal_eq_none_iff a).mpr rfl⟩

end HeldBy

/-- **One writer at a time.** After any run of actions of any writers, at most one of them holds the
lock. Who asks for it then gets it if nobody holds it, and is told otherwise whether it is themselves
or another who does; a refused writer changes nothing, nor does one who frees what they do not hold;
and once the holder frees the lock, anyone can take it. -/
theorem one_writer_at_a_time (steps : List (κ × Action)) :
    (run ({} : Lock κ) steps).Exclusive := by
  obtain ⟨holder, h⟩ := exists_heldBy_run steps
  exact h.exclusive

end Lock

end Concordance
