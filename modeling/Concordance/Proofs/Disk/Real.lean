import Concordance.Proofs.Disk.Ruled
import Mathlib.Algebra.BigOperators.Group.List.Basic
import Mathlib.Algebra.GroupWithZero.Nat
import Mathlib.Data.List.Nodup

/-!
# Real ways

There are two ways of going along a path, and they agree: where a path leads is its real way
(`realWay_of_locate`). What both do is said by `Leads`, which counts the links that a path goes
through.

A link is worked off once. When a path comes to it again, what it leads to is known, or the path is
still on the way along its target. The second cannot be if the path leads somewhere: the link would
have to go through more links than it does (`Returns.not_link`). As each link is entered once, the
steps that a real way is given are enough (`Entry.sum_stepsAt_le`).
-/

namespace Concordance

/-! ### The steps that links take -/

namespace Entry

/-- The steps that a link at the end of a way takes. -/
def stepsAt (entries : List (String × Entry)) (way : List String) : Nat :=
  match at? way entries with
  | some (.link target) => target.parts.length + 1
  | _ => 0

/-- What stands on one way is counted once. -/
theorem sum_ite_le {ways : List (List String)} (h : ways.Nodup) (c : Nat) :
    (ways.map fun way => if way = [] then c else 0).sum ≤ c := by
  induction ways with
  | nil => exact Nat.zero_le c
  | cons way ways ih =>
      rw [List.nodup_cons] at h
      rw [List.map_cons, List.sum_cons]
      by_cases hway : way = []
      · have hrest : (ways.map fun way => if way = [] then c else 0).sum = 0 := by
          apply List.sum_eq_zero
          intro n hn
          obtain ⟨w, hw, rfl⟩ := List.mem_map.mp hn
          exact if_neg fun hnil => h.1 (by rwa [hway, ← hnil])
        rw [if_pos hway, hrest]
        exact Nat.le_refl c
      · rw [if_neg hway, Nat.zero_add]
        exact ih h.2

/-- The steps under the first name of a folder. -/
theorem stepsAt_cons_self (name : String) (e : Entry) (rest : List (String × Entry))
    (way : List String) :
    stepsAt ((name, e) :: rest) (name :: way) =
      match e with
      | .folder inner => stepsAt inner way
      | .link target => if way = [] then target.parts.length + 1 else 0
      | .file _ => 0 := by
  unfold stepsAt
  rw [at?, List.lookup_cons_self]
  cases e with
  | folder inner => rfl
  | file contents => cases way <;> rfl
  | link target => cases way <;> rfl

/-- Other ways do not lead there. -/
theorem stepsAt_cons_of_ne {name : String} (e : Entry) (rest : List (String × Entry))
    {way : List String} (h : way.head? ≠ some name) :
    stepsAt ((name, e) :: rest) way = stepsAt rest way := by
  cases way with
  | nil => rfl
  | cons n way =>
      have hne : (n == name) = false := by simpa using h
      unfold stepsAt
      rw [at?, at?, List.lookup_cons, hne]

/-- **All links together.** Distinct ways lead to distinct links. -/
theorem sum_stepsAt_le (entries : List (String × Entry)) {ways : List (List String)}
    (h : ways.Nodup) : (ways.map (stepsAt entries)).sum ≤ linkStepsAll entries := by
  match entries with
  | [] =>
      have hnone : (ways.map (stepsAt [])).sum = 0 := by
        apply List.sum_eq_zero
        intro n hn
        obtain ⟨way, -, rfl⟩ := List.mem_map.mp hn
        cases way <;> rfl
      rw [hnone]
      exact Nat.zero_le _
  | (name, e) :: rest =>
      -- the ways under the first name, and the others
      let under := ways.filter fun w => w.head? == some name
      let others := ways.filter fun w => !(w.head? == some name)
      have hsplit : (ways.map (stepsAt ((name, e) :: rest))).sum =
          (under.map (stepsAt ((name, e) :: rest))).sum +
            (others.map (stepsAt ((name, e) :: rest))).sum := by
        rw [← List.sum_append, ← List.map_append]
        exact ((List.filter_append_perm _ ways).map _).sum_eq.symm
      have hhead : ∀ w ∈ under, w = name :: w.tail := by
        intro w hw
        have hfirst : w.head? = some name := by simpa using (List.mem_filter.mp hw).2
        exact (List.cons_head?_tail hfirst).symm
      have htails : (under.map List.tail).Nodup := by
        refine List.Nodup.map_on (fun w hw v hv heq => ?_) (h.filter _)
        rw [hhead w hw, hhead v hv, heq]
      have hunder : (under.map (stepsAt ((name, e) :: rest))).sum ≤ linkSteps e := by
        have hmap : under.map (stepsAt ((name, e) :: rest)) =
            (under.map List.tail).map fun w => stepsAt ((name, e) :: rest) (name :: w) := by
          rw [List.map_map]
          exact List.map_congr_left fun w hw => congrArg _ (hhead w hw)
        simp only [hmap, stepsAt_cons_self]
        cases e with
        | file contents => simp [linkSteps, Function.comp_def]
        | link target => exact sum_ite_le htails _
        | folder inner => exact sum_stepsAt_le inner htails
      have hothers : (others.map (stepsAt ((name, e) :: rest))).sum ≤ linkStepsAll rest := by
        have hmap : others.map (stepsAt ((name, e) :: rest)) = others.map (stepsAt rest) := by
          refine List.map_congr_left fun w hw => stepsAt_cons_of_ne e rest ?_
          simpa using (List.mem_filter.mp hw).2
        rw [hmap]
        exact sum_stepsAt_le rest (h.filter _)
      rw [hsplit, linkStepsAll, linkStepsOf]
      exact Nat.add_le_add hunder hothers
termination_by sizeOf entries

end Entry

namespace Disk

variable {d : Disk}

/-! ### Where paths lead, link by link -/

/-- A path leads from one way to another, and goes through a number of links. -/
inductive Leads (d : Disk) : Nat → List String → List String → List String → Prop
  | arrived {way : List String} : Leads d 0 way [] way
  | up {n : Nat} {way rest stop : List String} (hrest : Leads d n way.dropLast rest stop) :
      Leads d n way (".." :: rest) stop
  | name {n : Nat} {way rest stop : List String} {name : String} (hname : name ≠ "..")
      (hplain : ∀ target, d.at? (way ++ [name]) ≠ some (.link target))
      (hrest : Leads d n (way ++ [name]) rest stop) : Leads d n way (name :: rest) stop
  | link {n : Nat} {way rest stop : List String} {name : String} {target : Path}
      (hname : name ≠ "..") (hlink : d.at? (way ++ [name]) = some (.link target))
      (hrest : Leads d n (startOf way target) (target.parts ++ rest) stop) :
      Leads d (n + 1) way (name :: rest) stop

/-- Names along which there is no link lead to where one arrives, through no link. -/
theorem leads_of_advance_arrived {names : List String} :
    ∀ {way stop : List String}, d.advance way names = .arrived stop → Leads d 0 way names stop := by
  induction names with
  | nil =>
      intro way stop h
      cases h
      exact .arrived
  | cons name names ih =>
      intro way stop h
      rw [advance] at h
      split at h
      · next inner hway =>
        have hnext : d.at? (way ++ [name]) = inner.lookup name := Entry.at?_concat hway name
        split at h
        · next hup =>
          rw [beq_iff_eq.mp hup]
          exact .up (ih h)
        · next hup =>
          split at h
          · cases h
          · cases h
          · next e hlink hl =>
            refine .name (by simpa using hup) (fun target hat => ?_) (ih h)
            rw [hnext, hl] at hat
            exact hlink target (Option.some.inj hat)
      · cases h

/-- If one comes to a link, and its target and the rest lead somewhere, so do the names. -/
theorem leads_of_advance_link {names : List String} {folder rest stop : List String} {target : Path}
    {n : Nat} (hrest : Leads d n (startOf folder target) (target.parts ++ rest) stop) :
    ∀ {way : List String}, d.advance way names = .link folder target rest →
      Leads d (n + 1) way names stop := by
  induction names with
  | nil =>
      intro way h
      cases h
  | cons name names ih =>
      intro way h
      rw [advance] at h
      split at h
      · next inner hway =>
        have hnext : d.at? (way ++ [name]) = inner.lookup name := Entry.at?_concat hway name
        split at h
        · next hup =>
          rw [beq_iff_eq.mp hup]
          exact .up (ih h)
        · next hup =>
          split at h
          · cases h
          · next t hl =>
            cases h
            exact .link (by simpa using hup) (hnext.trans hl) hrest
          · next e hlink hl =>
            refine .name (by simpa using hup) (fun target hat => ?_) (ih h)
            rw [hnext, hl] at hat
            exact hlink target (Option.some.inj hat)
      · cases h

/-- A path that can be followed leads to where it is followed to. -/
theorem leads_of_follow {fuel : Nat} : ∀ {way names stop : List String},
    d.follow fuel way names = .ok stop → ∃ n, Leads d n way names stop := by
  induction fuel with
  | zero =>
      intro way names stop h
      cases h
  | succ fuel ih =>
      intro way names stop h
      rw [follow] at h
      split at h
      · next hadvance =>
        cases h
        exact ⟨0, leads_of_advance_arrived hadvance⟩
      · next folder target rest hadvance =>
        obtain ⟨n, hrest⟩ := ih h
        exact ⟨n + 1, leads_of_advance_link hrest hadvance⟩
      · cases h

/-- A path leads to one place, through a fixed number of links. -/
theorem Leads.eq {n : Nat} {way names stop : List String} (h : Leads d n way names stop) :
    ∀ {m : Nat} {stop' : List String}, Leads d m way names stop' → n = m ∧ stop = stop' := by
  induction h with
  | arrived =>
      intro m stop' h'
      cases h'
      exact ⟨rfl, rfl⟩
  | up hrest ih =>
      intro m stop' h'
      cases h' with
      | up hrest' => exact ih hrest'
      | name hname => exact absurd rfl hname
      | link hname => exact absurd rfl hname
  | name hname hplain hrest ih =>
      intro m stop' h'
      cases h' with
      | up => exact absurd rfl hname
      | name _ _ hrest' => exact ih hrest'
      | link _ hlink => exact absurd hlink (hplain _)
  | link hname hlink hrest ih =>
      intro m stop' h'
      cases h' with
      | up => exact absurd rfl hname
      | name _ hplain => exact absurd hlink (hplain _)
      | link _ hlink' hrest' =>
          rw [hlink] at hlink'
          cases hlink'
          obtain ⟨rfl, rfl⟩ := ih hrest'
          exact ⟨rfl, rfl⟩

/-- A path in two parts goes through the links of both. -/
theorem Leads.split {n : Nat} {way names stop : List String} (h : Leads d n way names stop) :
    ∀ {first second : List String}, names = first ++ second →
      ∃ k m middle, Leads d k way first middle ∧ Leads d m middle second stop ∧ n = k + m := by
  induction h with
  | arrived =>
      intro first second heq
      obtain ⟨rfl, rfl⟩ := List.append_eq_nil_iff.mp heq.symm
      exact ⟨0, 0, _, .arrived, .arrived, rfl⟩
  | @up n way rest stop hrest ih =>
      intro first second heq
      cases first with
      | nil =>
          obtain rfl : ".." :: rest = second := heq
          exact ⟨0, n, way, .arrived, .up hrest, (Nat.zero_add n).symm⟩
      | cons name first =>
          cases heq
          obtain ⟨k, m, middle, hfirst, hsecond, rfl⟩ := ih rfl
          exact ⟨k, m, middle, .up hfirst, hsecond, rfl⟩
  | @name n way rest stop name hname hplain hrest ih =>
      intro first second heq
      cases first with
      | nil =>
          obtain rfl : name :: rest = second := heq
          exact ⟨0, n, way, .arrived, .name hname hplain hrest, (Nat.zero_add n).symm⟩
      | cons name first =>
          cases heq
          obtain ⟨k, m, middle, hfirst, hsecond, rfl⟩ := ih rfl
          exact ⟨k, m, middle, .name hname hplain hfirst, hsecond, rfl⟩
  | @link n way rest stop name target hname hlink hrest ih =>
      intro first second heq
      cases first with
      | nil =>
          obtain rfl : name :: rest = second := heq
          exact ⟨0, n + 1, way, .arrived, .link hname hlink hrest, (Nat.zero_add _).symm⟩
      | cons name first =>
          cases heq
          obtain ⟨k, m, middle, hfirst, hsecond, rfl⟩ := ih (List.append_assoc _ _ _).symm
          exact ⟨k + 1, m, middle, .link hname hlink hfirst, hsecond, by omega⟩

/-- What is left of a path once its first part is known. -/
theorem Leads.after {n m : Nat} {way first second middle stop : List String}
    (h : Leads d n way (first ++ second) stop) (hfirst : Leads d m way first middle) :
    ∃ k, n = m + k ∧ Leads d k middle second stop := by
  obtain ⟨m', k, middle', hfirst', hsecond, rfl⟩ := h.split rfl
  obtain ⟨rfl, rfl⟩ := hfirst.eq hfirst'
  exact ⟨k, rfl, hsecond⟩

/-- A link leads to a place, through a number of further links. -/
def LinkLeads (d : Disk) (n : Nat) (link stop : List String) : Prop :=
  ∃ folder name target, link = folder ++ [name] ∧ d.at? link = some (.link target) ∧
    Leads d n (startOf folder target) target.parts stop

/-- A path that starts with a link goes on from where the link leads. -/
theorem Leads.after_link {n m : Nat} {way rest real stop : List String} {name : String}
    (h : Leads d n way (name :: rest) stop) (hname : name ≠ "..")
    (hlink : LinkLeads d m (way ++ [name]) real) : ∃ k, n = m + k + 1 ∧ Leads d k real rest stop := by
  obtain ⟨folder, name', target, heq, hat, hleads⟩ := hlink
  obtain ⟨rfl, hlast⟩ := List.append_inj' heq rfl
  cases h with
  | up => exact absurd rfl hname
  | name _ hplain => exact absurd hat (hplain target)
  | link _ hat' hrest =>
      rw [hat] at hat'
      cases hat'
      obtain ⟨k, rfl, hstop⟩ := hrest.after hleads
      exact ⟨k, rfl, hstop⟩

/-! ### Links that have been entered -/

/-- Some names lead from a way to where a link leads, through no more links than the link does. -/
def Returns (d : Disk) (link way names : List String) : Prop :=
  ∃ n m stop, LinkLeads d n link stop ∧ Leads d m way names stop ∧ m ≤ n

/-- What is left of a path, behind some names, leads to the end of each link that it ends. -/
def Pending (d : Disk) (way : List String) : List String → List Stop → Prop
  | _, [] => True
  | before, .name name :: rest => Pending d way (before ++ [name]) rest
  | before, .endOf link :: rest => Returns d link way before ∧ Pending d way before rest

/-- What is pending stays so if every return from a link does. -/
theorem Pending.imp {way way' : List String} {rest : List Stop} :
    ∀ {before before' : List String},
      (∀ link names, Returns d link way (before ++ names) → Returns d link way' (before' ++ names)) →
      Pending d way before rest → Pending d way' before' rest := by
  induction rest with
  | nil => exact fun _ _ => trivial
  | cons stop rest ih =>
      intro before before' himp h
      cases stop with
      | name name =>
          refine ih (fun link names hreturns => ?_) h
          rw [List.append_assoc] at hreturns ⊢
          exact himp link _ hreturns
      | endOf link =>
          refine ⟨?_, ih himp h.2⟩
          have hreturns := himp link []
          rw [List.append_nil, List.append_nil] at hreturns
          exact hreturns h.1

/-- Names that are left may be counted to those gone through before. -/
theorem pending_map_name {way : List String} {rest : List Stop} {names : List String} :
    ∀ {before : List String},
      Pending d way before (names.map .name ++ rest) ↔ Pending d way (before ++ names) rest := by
  induction names with
  | nil =>
      intro before
      rw [List.append_nil]
      exact Iff.rfl
  | cons name names ih =>
      intro before
      rw [List.append_cons]
      exact ih

/-- A link that is still to end is one that the path returns from. -/
theorem Pending.of_mem {way link : List String} {rest : List Stop} (hmem : .endOf link ∈ rest) :
    ∀ {before : List String}, Pending d way before rest →
      ∃ names, Returns d link way (before ++ names) := by
  induction rest with
  | nil => cases hmem
  | cons stop rest ih =>
      intro before h
      cases stop with
      | name name =>
          have hrest : .endOf link ∈ rest := by simpa using hmem
          obtain ⟨names, hreturns⟩ := ih hrest h
          rw [List.append_assoc] at hreturns
          exact ⟨_, hreturns⟩
      | endOf other =>
          rcases List.mem_cons.mp hmem with heq | hmem
          · cases heq
            refine ⟨[], ?_⟩
            rw [List.append_nil]
            exact h.1
          · exact ih hmem h.2

/-- **A path does not come to a link that it has not returned from.** -/
theorem Returns.not_link {way names : List String} {name : String} (hname : name ≠ "..") :
    ¬ Returns d (way ++ [name]) way (name :: names) := by
  rintro ⟨n, m, stop, hlink, hleads, hle⟩
  obtain ⟨k, heq, -⟩ := hleads.after_link hname hlink
  omega

/-- What keeps a trail on the path to `stop`. -/
structure Trail.Sound (d : Disk) (stop : List String) (t : Trail) : Prop where
  leads : ∃ n, Leads d n t.way t.namesLeft stop
  pending : Pending d t.way [] t.rest
  known : ∀ k ∈ t.known, ∃ n, LinkLeads d n k.1 k.2
  entered : ∀ link ∈ t.entered, (t.known.lookup link).isSome ∨ .endOf link ∈ t.rest
  distinct : t.entered.Nodup

/-- Going on by a name that leads on through no more links keeps to the path. -/
theorem Trail.Sound.move {way way' before stop : List String} {name : String} {rest : List Stop}
    {entered : List (List String)} {known : List (List String × List String)}
    (h : Sound d stop ⟨way, .name name :: rest, entered, known⟩)
    (hmove : ∀ {n names stop}, Leads d n way (name :: names) stop →
      ∃ k ≤ n, Leads d k way' (before ++ names) stop) :
    (∃ n, Leads d n way' (before ++ Trail.namesLeft ⟨way', rest, entered, known⟩) stop) ∧
      Pending d way' before rest := by
  constructor
  · obtain ⟨n, hleads⟩ := h.leads
    obtain ⟨k, -, hnext⟩ := hmove hleads
    exact ⟨k, hnext⟩
  · refine Pending.imp (fun link names hreturns => ?_) h.pending
    obtain ⟨n, m, real, hlink, hleads, hle⟩ := hreturns
    obtain ⟨k, hk, hnext⟩ := hmove hleads
    exact ⟨n, k, real, hlink, hnext, Nat.le_trans hk hle⟩

/-- The end of a link is not among names. -/
theorem mem_of_mem_name {link : List String} {name : String} {rest : List Stop}
    (h : Stop.endOf link ∈ .name name :: rest) : .endOf link ∈ rest :=
  List.mem_of_ne_of_mem (by simp) h

/-- Going on by a name that stands for no link, or for one whose end is known. -/
theorem Trail.Sound.go {way way' stop : List String} {name : String} {rest : List Stop}
    {entered : List (List String)} {known : List (List String × List String)}
    (h : Sound d stop ⟨way, .name name :: rest, entered, known⟩)
    (hmove : ∀ {n names stop}, Leads d n way (name :: names) stop →
      ∃ k ≤ n, Leads d k way' names stop) :
    Sound d stop ⟨way', rest, entered, known⟩ := by
  have hmoved : (∃ n, Leads d n way' ([] ++ Trail.namesLeft ⟨way', rest, entered, known⟩) stop) ∧
      Pending d way' [] rest := h.move hmove
  refine ⟨hmoved.1, hmoved.2, h.known, fun link hlink => ?_, h.distinct⟩
  exact (h.entered link hlink).imp_right mem_of_mem_name

/-- A link that a path comes to and whose end is not known has not been entered: it would have to lead
through itself. -/
theorem Trail.Sound.not_entered {way stop : List String} {name : String} {rest : List Stop}
    {entered : List (List String)} {known : List (List String × List String)}
    (h : Sound d stop ⟨way, .name name :: rest, entered, known⟩) (hname : name ≠ "..")
    (hlookup : known.lookup (way ++ [name]) = none) : way ++ [name] ∉ entered := by
  intro hmem
  rcases h.entered _ hmem with hsome | hpending
  · dsimp only at hsome
    rw [hlookup] at hsome
    cases hsome
  · obtain ⟨names, hreturns⟩ := Pending.of_mem (mem_of_mem_name hpending) h.pending
    exact Returns.not_link hname hreturns

/-- Entering a link that is new. -/
theorem Trail.Sound.enter {way stop : List String} {name : String} {target : Path}
    {rest : List Stop} {entered : List (List String)} {known : List (List String × List String)}
    (h : Sound d stop ⟨way, .name name :: rest, entered, known⟩) (hname : name ≠ "..")
    (hlink : d.at? (way ++ [name]) = some (.link target)) (hnew : way ++ [name] ∉ entered) :
    Sound d stop ⟨startOf way target, target.parts.map .name ++ .endOf (way ++ [name]) :: rest,
      (way ++ [name]) :: entered, known⟩ := by
  have hmove : ∀ {n names stop}, Leads d n way (name :: names) stop →
      ∃ k ≤ n, Leads d k (startOf way target) (target.parts ++ names) stop := by
    intro n names stop hleads
    cases hleads with
    | up => exact absurd rfl hname
    | name _ hplain => exact absurd hlink (hplain target)
    | link _ hlink' hrest =>
        rw [hlink] at hlink'
        cases hlink'
        exact ⟨_, Nat.le_succ _, hrest⟩
  obtain ⟨hleads, hpending⟩ := h.move hmove
  have hreturns : Returns d (way ++ [name]) (startOf way target) target.parts := by
    obtain ⟨n, hn⟩ := hleads
    obtain ⟨k, m, real, htarget, -, -⟩ := hn.split rfl
    exact ⟨k, k, real, ⟨way, name, target, rfl, hlink, htarget⟩, htarget, Nat.le_refl k⟩
  refine ⟨?_, pending_map_name.mpr ⟨hreturns, hpending⟩, h.known, ?_, List.nodup_cons.mpr
    ⟨hnew, h.distinct⟩⟩
  · have hleft : Trail.namesLeft ⟨startOf way target,
        target.parts.map .name ++ .endOf (way ++ [name]) :: rest, (way ++ [name]) :: entered, known⟩ =
        target.parts ++ Trail.namesLeft ⟨startOf way target, rest, entered, known⟩ := by
      simp [Trail.namesLeft, List.filterMap_append, List.filterMap_map]
    rw [hleft]
    exact hleads
  · intro link hmem
    rcases List.mem_cons.mp hmem with rfl | hmem
    · exact .inr (by simp)
    · refine (h.entered link hmem).imp_right fun hin => ?_
      exact List.mem_append_right _ (List.mem_cons_of_mem _ (mem_of_mem_name hin))

/-- Leaving a link: its end is known from then on. -/
theorem Trail.Sound.leave {way stop link : List String} {rest : List Stop}
    {entered : List (List String)} {known : List (List String × List String)}
    (h : Sound d stop ⟨way, .endOf link :: rest, entered, known⟩) :
    Sound d stop ⟨way, rest, entered, (link, way) :: known⟩ := by
  obtain ⟨⟨n, m, real, hlink, hback, -⟩, hpending⟩ := h.pending
  cases hback
  refine ⟨h.leads, hpending, List.forall_mem_cons.mpr ⟨⟨n, hlink⟩, h.known⟩, ?_, h.distinct⟩
  intro other hother
  by_cases hsame : other = link
  · exact .inl (by simp [hsame])
  · have hlookup : ((link, way) :: known).lookup other = known.lookup other := by
      rw [List.lookup_cons, beq_false_of_ne hsame]
    dsimp only
    rw [hlookup]
    refine (h.entered other hother).imp_right fun hmem => ?_
    exact List.mem_of_ne_of_mem (by simpa using hsame) hmem

/-- Going up. -/
theorem Trail.Sound.up {way stop : List String} {rest : List Stop}
    {entered : List (List String)} {known : List (List String × List String)}
    (h : Sound d stop ⟨way, .name ".." :: rest, entered, known⟩) :
    Sound d stop ⟨way.dropLast, rest, entered, known⟩ := by
  refine h.go fun hleads => ?_
  cases hleads with
  | up hrest => exact ⟨_, Nat.le_refl _, hrest⟩
  | name hname => exact absurd rfl hname
  | link hname => exact absurd rfl hname

/-- Going on to what is no link. -/
theorem Trail.Sound.pass {way stop : List String} {name : String} {rest : List Stop}
    {entered : List (List String)} {known : List (List String × List String)}
    (h : Sound d stop ⟨way, .name name :: rest, entered, known⟩) (hname : name ≠ "..")
    (hplain : ∀ target, d.at? (way ++ [name]) ≠ some (.link target)) :
    Sound d stop ⟨way ++ [name], rest, entered, known⟩ := by
  refine h.go fun hleads => ?_
  cases hleads with
  | up => exact absurd rfl hname
  | name _ _ hrest => exact ⟨_, Nat.le_refl _, hrest⟩
  | link _ hlink => exact absurd hlink (hplain _)

/-- Going to the end of a link that is known. -/
theorem Trail.Sound.jump {way stop real : List String} {name : String} {rest : List Stop}
    {entered : List (List String)} {known : List (List String × List String)}
    (h : Sound d stop ⟨way, .name name :: rest, entered, known⟩) (hname : name ≠ "..")
    (hlookup : known.lookup (way ++ [name]) = some real) :
    Sound d stop ⟨real, rest, entered, known⟩ := by
  obtain ⟨m, hreal⟩ := h.known _ (mem_of_lookup hlookup)
  refine h.go fun hleads => ?_
  obtain ⟨k, heq, hrest⟩ := hleads.after_link hname hreal
  exact ⟨k, by omega, hrest⟩

/-- The steps that the links take that have been entered. -/
def Trail.spent (d : Disk) (t : Trail) : Nat :=
  (t.entered.map (Entry.stepsAt d.top)).sum

/-- Entering a link takes the steps of its target and one to leave it. -/
theorem Trail.spent_enter (way : List String) (rest : List Stop) {way' link : List String}
    {target : Path} {rest' : List Stop} {entered : List (List String)}
    {known : List (List String × List String)} (hlink : d.at? link = some (.link target)) :
    Trail.spent d ⟨way', rest', link :: entered, known⟩ =
      target.parts.length + 1 + Trail.spent d ⟨way, rest, entered, known⟩ := by
  have hsteps : Entry.stepsAt d.top link = target.parts.length + 1 := by
    rw [Entry.stepsAt, ← Disk.at?, hlink]
  rw [Trail.spent, List.map_cons, List.sum_cons, hsteps, Trail.spent]

/-- **One step** along a trail keeps to the path, and is one of those that were to be taken. -/
theorem Trail.Sound.step {stop : List String} {t : Trail} (h : t.Sound d stop) :
    match t.step d with
    | .inl t' => t'.Sound d stop ∧ t'.rest.length + t.spent d < t.rest.length + t'.spent d
    | .inr way => way = stop := by
  obtain ⟨way, rest, entered, known⟩ := t
  cases rest with
  | nil =>
      obtain ⟨n, hleads⟩ := h.leads
      cases hleads
      rfl
  | cons next rest =>
      -- no step but entering a link adds to what is left or to what was entered
      have hless : ∀ {way' : List String} {known' : List (List String × List String)},
          (Trail.mk way' rest entered known').rest.length +
              Trail.spent d ⟨way, next :: rest, entered, known⟩ <
            (Trail.mk way (next :: rest) entered known).rest.length +
              Trail.spent d ⟨way', rest, entered, known'⟩ :=
        Nat.add_lt_add_right (Nat.lt_succ_self _) _
      cases next with
      | endOf link => exact ⟨h.leave, hless⟩
      | name name =>
          rw [Trail.step]
          dsimp only
          by_cases hup : name = ".."
          · subst hup
            rw [if_pos (by simp)]
            exact ⟨h.up, hless⟩
          · rw [if_neg (by simpa using hup)]
            cases hat : d.at? (way ++ [name]) with
            | none => exact ⟨h.pass hup (by simp [hat]), hless⟩
            | some e =>
                cases e with
                | file contents => exact ⟨h.pass hup (by simp [hat]), hless⟩
                | folder inner => exact ⟨h.pass hup (by simp [hat]), hless⟩
                | link target =>
                    dsimp only
                    cases hlookup : known.lookup (way ++ [name]) with
                    | some real => exact ⟨h.jump hup hlookup, hless⟩
                    | none =>
                        have hnew := h.not_entered hup hlookup
                        dsimp only
                        rw [if_neg (by simpa using hnew)]
                        refine ⟨h.enter hup hat hnew, ?_⟩
                        rw [Trail.spent_enter way (.name name :: rest) hat]
                        simp only [List.length_append, List.length_map, List.length_cons]
                        omega

/-- **A whole trail** ends where the path leads. -/
theorem Trail.Sound.run {stop : List String} {fuel : Nat} :
    ∀ {t : Trail}, t.Sound d stop →
      t.rest.length + Entry.linkStepsAll d.top < fuel + t.spent d → t.run d fuel = stop := by
  induction fuel with
  | zero =>
      intro t h hfuel
      have hspent : t.spent d ≤ Entry.linkStepsAll d.top := Entry.sum_stepsAt_le d.top h.distinct
      omega
  | succ fuel ih =>
      intro t h hfuel
      have hstep := h.step
      rw [Trail.run]
      split
      · next t' ht' =>
        rw [ht'] at hstep
        exact ih hstep.1 (by omega)
      · next way hway =>
        rw [hway] at hstep
        exact hstep

/-- **The real way of a path is where it leads.** -/
theorem realWay_of_locate {names stop : List String} (h : d.locate names = .ok stop) :
    d.realWay names = stop := by
  obtain ⟨n, hleads⟩ := leads_of_follow h
  have hleft : Trail.namesLeft { way := [], rest := names.map .name } = names := by
    simp [Trail.namesLeft, List.filterMap_map]
  refine Trail.Sound.run ⟨⟨n, ?_⟩, ?_, by simp, by simp, List.nodup_nil⟩ ?_
  · rw [hleft]
    exact hleads
  · have hpending : Pending d [] [] (names.map .name ++ []) := pending_map_name.mpr trivial
    rwa [List.append_nil] at hpending
  · simp [Trail.spent]

end Disk

end Concordance
