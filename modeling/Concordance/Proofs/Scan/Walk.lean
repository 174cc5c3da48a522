import Concordance.Proofs.Disk.Distinct
import Concordance.Proofs.Roster
import Concordance.Scan.Basic

/-!
# What a walk meets, and in which order

A walk through folders in which no name occurs twice meets every file and link whose way leads through
no folder that is passed by, and nothing else (`Scan.mem_walk_iff`). It meets them in one order: the
files of a folder by name, then what is in its folders, by name (`Scan.Before`,
`Scan.pairwise_walk`). As an order leaves no choice, a walk is told by what it meets: passing folders
by is the same as walking through everything and leaving out the ways through such folders
(`Scan.walk_eq_filter`).
-/

namespace Concordance

namespace Scan

variable {passesBy : String → Bool} {entries : List (String × Entry)}

/-! ### What a walk meets -/

/-- What a walk meets in a folder stands in it under its name, and is no folder that is passed by. -/
theorem mem_visits_iff {v : Visit} :
    v ∈ visits passesBy entries ↔
      ∃ f ∈ entries, ((inside passesBy f.2).isSome = true → passesBy f.1 = false) ∧
        v = ⟨f.1, inside passesBy f.2⟩ := by
  induction entries with
  | nil => simp [visits]
  | cons f entries ih =>
      have hvisit : v ∈ visit passesBy f ↔
          ((inside passesBy f.2).isSome = true → passesBy f.1 = false) ∧
            v = ⟨f.1, inside passesBy f.2⟩ := by
        obtain ⟨name, e⟩ := f
        unfold visit
        cases e with
        | file contents => simp [inside]
        | link target => simp [inside]
        | folder inner => simp [inside]
      rw [visits, List.mem_append, ih, hvisit]
      simp

theorem mem_byName {visits : List Visit} {v : Visit} : v ∈ byName visits ↔ v ∈ visits :=
  List.mem_mergeSort

/-- Only folders have something in them. -/
theorem inside_eq_none_iff {e : Entry} : inside passesBy e = none ↔ ∀ inner, e ≠ .folder inner := by
  cases e <;> simp [inside]

/-- **The ways from a folder on** are the names of its files and links, and the ways from its
folders on. -/
theorem mem_walk_folder {w : List String} :
    w ∈ walk passesBy (.folder entries) ↔
      (∃ name e, (name, e) ∈ entries ∧ (∀ inner, e ≠ .folder inner) ∧ w = [name]) ∨
        ∃ name inner rest, (name, .folder inner) ∈ entries ∧ passesBy name = false ∧
          rest ∈ walk passesBy (.folder inner) ∧ w = name :: rest := by
  rw [walk, inside, Option.getD_some, inOrder, List.mem_append]
  simp only [List.mem_map, List.mem_flatMap, mem_byName, List.mem_filter, mem_visits_iff]
  constructor
  · rintro (⟨v, ⟨⟨f, hf, -, rfl⟩, hnone⟩, rfl⟩ | ⟨v, ⟨⟨f, hf, hpassed, rfl⟩, hsome⟩, rest, hrest, rfl⟩)
    · exact .inl ⟨f.1, f.2, hf, inside_eq_none_iff.mp (Option.isNone_iff_eq_none.mp hnone), rfl⟩
    · obtain ⟨name, e⟩ := f
      cases e with
      | file contents => cases hsome
      | link target => cases hsome
      | folder inner => exact .inr ⟨name, inner, rest, hf, hpassed rfl, hrest, rfl⟩
  · rintro (⟨name, e, hmem, hleaf, rfl⟩ | ⟨name, inner, rest, hmem, hpassed, hrest, rfl⟩)
    · have hnone : inside passesBy e = none := inside_eq_none_iff.mpr hleaf
      refine .inl ⟨⟨name, none⟩, ⟨⟨(name, e), hmem, ?_, ?_⟩, rfl⟩, rfl⟩
      · rw [hnone]
        exact fun h => by cases h
      · rw [hnone]
    · exact .inr ⟨_, ⟨⟨(name, .folder inner), hmem, fun _ => hpassed, rfl⟩, rfl⟩, rest, hrest, rfl⟩

/-- A walk does not meet the entry from which it starts. -/
theorem nil_notMem_walk (e : Entry) : [] ∉ walk passesBy e := by
  cases e with
  | file contents => exact List.not_mem_nil
  | link target => exact List.not_mem_nil
  | folder entries =>
      rw [mem_walk_folder]
      rintro (⟨name, e, -, -, h⟩ | ⟨name, inner, rest, -, -, -, h⟩)
      · cases h
      · cases h

/-- **What a walk meets**, where no name occurs twice: whatever stands at the end of a way and is no
folder, unless the way leads through a folder that is passed by. -/
theorem mem_walk_iff {w : List String} (h : Entry.Distinct (.folder entries)) :
    w ∈ walk passesBy (.folder entries) ↔
      (∃ e, Entry.at? w entries = some e ∧ ∀ inner, e ≠ .folder inner) ∧
        ∀ n ∈ w.dropLast, passesBy n = false := by
  induction w generalizing entries with
  | nil =>
      constructor
      · exact fun hw => absurd hw (nil_notMem_walk _)
      · rintro ⟨⟨e, he, hleaf⟩, -⟩
        cases he
        exact absurd rfl (hleaf entries)
  | cons name rest ih =>
      have hlookup : ∀ e, entries.lookup name = some e ↔ (name, e) ∈ entries := fun e =>
        Roster.lookup_eq_some_iff_mem h.names
      rw [mem_walk_folder]
      constructor
      · rintro (⟨name', e, hmem, hleaf, heq⟩ | ⟨name', inner, rest', hmem, hpassed, hrest, heq⟩)
        · cases heq
          refine ⟨⟨e, ?_, hleaf⟩, by simp⟩
          rw [Entry.at?, (hlookup e).mpr hmem]
          cases e with
          | folder inner => exact absurd rfl (hleaf inner)
          | file contents => rfl
          | link target => rfl
        · cases heq
          obtain ⟨hstands, hways⟩ := (ih (h.inside _ hmem)).mp hrest
          have hne : rest ≠ [] := by
            rintro rfl
            exact nil_notMem_walk _ hrest
          refine ⟨?_, ?_⟩
          · rwa [Entry.at?, (hlookup _).mpr hmem]
          · rw [List.dropLast_cons_of_ne_nil hne]
            exact List.forall_mem_cons.mpr ⟨hpassed, hways⟩
      · rintro ⟨⟨e, hat, hleaf⟩, hways⟩
        rw [Entry.at?] at hat
        split at hat
        · next inner hl =>
          have hne : rest ≠ [] := by
            rintro rfl
            cases hat
            exact hleaf inner rfl
          rw [List.dropLast_cons_of_ne_nil hne] at hways
          obtain ⟨hpassed, hways⟩ := List.forall_mem_cons.mp hways
          have hmem := (hlookup _).mp hl
          exact .inr ⟨name, inner, rest, hmem, hpassed,
            (ih (h.inside _ hmem)).mpr ⟨⟨e, hat, hleaf⟩, hways⟩, rfl⟩
        · next found hfolder hl =>
          split at hat
          · next hempty =>
            cases hat
            obtain rfl := List.isEmpty_iff.mp hempty
            exact .inl ⟨name, _, (hlookup _).mp hl, hleaf, rfl⟩
          · cases hat
        · cases hat

/-! ### The order of a walk -/

/-- The order in which ways are met: the files of a folder by name, then what is in its folders, by
name. -/
inductive Before : List String → List String → Prop
  | files {a b : String} (h : a < b) : Before [a] [b]
  | fileFirst {a b c : String} {rest : List String} : Before [a] (b :: c :: rest)
  | folders {a b c d : String} {rest rest' : List String} (h : a < c) :
      Before (a :: b :: rest) (c :: d :: rest')
  | inside {a b d : String} {rest rest' : List String} (h : Before (b :: rest) (d :: rest')) :
      Before (a :: b :: rest) (a :: d :: rest')

/-- Of two ways at most one comes before the other. -/
theorem Before.asymm {w w' : List String} (h : Before w w') : ¬ Before w' w := by
  induction h with
  | files h =>
      intro h'
      cases h' with
      | files h' => exact String.lt_asymm h h'
  | fileFirst =>
      intro h'
      cases h'
  | folders h =>
      intro h'
      cases h' with
      | folders h' => exact String.lt_asymm h h'
      | inside h' => exact String.lt_irrefl _ h
  | inside h ih =>
      intro h'
      cases h' with
      | folders h' => exact String.lt_irrefl _ h'
      | inside h' => exact ih h'

theorem Before.ne {w w' : List String} (h : Before w w') : w ≠ w' := by
  rintro rfl
  exact h.asymm h

/-- Ways in order are told by which they are. -/
theorem eq_of_pairwise_before {ways ways' : List (List String)} (h : ways.Pairwise Before)
    (h' : ways'.Pairwise Before) (hmem : ∀ w, w ∈ ways ↔ w ∈ ways') : ways = ways' := by
  have hperm : ways.Perm ways' :=
    (List.perm_ext_iff_of_nodup (h.imp Before.ne) (h'.imp Before.ne)).mpr hmem
  exact hperm.eq_of_pairwise (fun w w' _ _ hbefore hafter => absurd hafter hbefore.asymm) h h'

/-- Sorted by name, where no name occurs twice. -/
theorem pairwise_byName {visits : List Visit} (h : (visits.map Visit.name).Nodup) :
    (byName visits).Pairwise fun v v' => v.name < v'.name := by
  have hsorted : (byName visits).Pairwise fun v v' => v.name ≤ v'.name := by
    have htrans : ∀ a b c : Visit, decide (a.name ≤ b.name) = true →
        decide (b.name ≤ c.name) = true → decide (a.name ≤ c.name) = true := by
      simpa using fun a b c : Visit => String.le_trans
    have htotal : ∀ a b : Visit,
        (decide (a.name ≤ b.name) || decide (b.name ≤ a.name)) = true := by
      simpa using fun a b : Visit => String.le_total a.name b.name
    exact (List.pairwise_mergeSort htrans htotal visits).imp of_decide_eq_true
  have hdistinct : (byName visits).Pairwise fun v v' => v.name ≠ v'.name := by
    have hnodup : ((byName visits).map Visit.name).Nodup :=
      ((List.mergeSort_perm visits _).map Visit.name).nodup_iff.mpr h
    exact List.pairwise_map.mp hnodup
  refine (hsorted.and hdistinct).imp fun {v v'} hv => ?_
  by_contra hlt
  exact hv.2 (String.le_antisymm hv.1 (String.not_lt.mp hlt))

/-- The names that a walk meets in a folder are names of the folder. -/
theorem names_visits_sublist :
    ((visits passesBy entries).map Visit.name).Sublist (entries.map Prod.fst) := by
  induction entries with
  | nil => exact .slnil
  | cons f entries ih =>
      obtain ⟨name, e⟩ := f
      have hvisit : visit passesBy (name, e) = [] ∨
          visit passesBy (name, e) = [⟨name, inside passesBy e⟩] := by
        unfold visit
        exact ite_eq_or_eq _ _ _
      rw [visits]
      rcases hvisit with hvisit | hvisit
      · rw [hvisit]
        exact ih.cons _
      · rw [hvisit]
        exact ih.cons_cons _

/-- **A walk meets ways in order**, where no name occurs twice. -/
theorem pairwise_walk {e : Entry} (he : e.Distinct) : (walk passesBy e).Pairwise Before := by
  induction he with
  | file contents => exact .nil
  | link target => exact .nil
  | @folder entries names inner ih =>
      have hnames : ∀ keep : Visit → Bool,
          (((visits passesBy entries).filter keep).map Visit.name).Nodup := fun keep =>
        names.sublist ((List.filter_sublist.map Visit.name).trans names_visits_sublist)
      -- what is met in a folder that is met
      have hinside : ∀ v ∈ byName ((visits passesBy entries).filter (·.inside.isSome)),
          ∃ f ∈ entries, v.inside.getD [] = walk passesBy f.2 := by
        intro v hv
        obtain ⟨hmem, -⟩ := List.mem_filter.mp (mem_byName.mp hv)
        obtain ⟨f, hf, -, rfl⟩ := mem_visits_iff.mp hmem
        exact ⟨f, hf, rfl⟩
      have hne : ∀ v ∈ byName ((visits passesBy entries).filter (·.inside.isSome)),
          ∀ rest ∈ v.inside.getD [], ∃ n more, rest = n :: more := by
        intro v hv rest hrest
        obtain ⟨f, -, heq⟩ := hinside v hv
        rw [heq] at hrest
        cases rest with
        | nil => exact absurd hrest (nil_notMem_walk _)
        | cons n more => exact ⟨n, more, rfl⟩
      rw [walk, inside, Option.getD_some, inOrder, List.pairwise_append]
      refine ⟨?_, List.pairwise_flatMap.mpr ⟨?_, ?_⟩, ?_⟩
      · rw [List.pairwise_map]
        exact (pairwise_byName (hnames _)).imp Before.files
      · intro v hv
        obtain ⟨f, hf, heq⟩ := hinside v hv
        rw [List.pairwise_map]
        rw [heq]
        refine (ih f hf).imp_of_mem fun {w w'} hw hw' hbefore => ?_
        rw [← heq] at hw hw'
        obtain ⟨n, more, rfl⟩ := hne v hv w hw
        obtain ⟨n', more', rfl⟩ := hne v hv w' hw'
        exact .inside hbefore
      · refine (pairwise_byName (hnames _)).imp_of_mem fun {v v'} hv hv' hlt => ?_
        intro w hw w' hw'
        obtain ⟨rest, hrest, rfl⟩ := List.mem_map.mp hw
        obtain ⟨rest', hrest', rfl⟩ := List.mem_map.mp hw'
        obtain ⟨n, more, rfl⟩ := hne v hv rest hrest
        obtain ⟨n', more', rfl⟩ := hne v' hv' rest' hrest'
        exact .folders hlt
      · intro w hw w' hw'
        obtain ⟨v, -, rfl⟩ := List.mem_map.mp hw
        obtain ⟨v', hv', hw'⟩ := List.mem_flatMap.mp hw'
        obtain ⟨rest, hrest, rfl⟩ := List.mem_map.mp hw'
        obtain ⟨n, more, rfl⟩ := hne v' hv' rest hrest
        exact .fileFirst

/-- **Passing folders by** is leaving out the ways through them. -/
theorem walk_eq_filter {e : Entry} (he : e.Distinct) :
    walk passesBy e =
      (walk (fun _ => false) e).filter fun w => w.dropLast.all fun n => !passesBy n := by
  apply eq_of_pairwise_before (pairwise_walk he) ((pairwise_walk he).filter _)
  intro w
  cases e with
  | file contents => exact ⟨id, fun h => (List.mem_filter.mp h).1⟩
  | link target => exact ⟨id, fun h => (List.mem_filter.mp h).1⟩
  | folder entries =>
      rw [List.mem_filter, mem_walk_iff he, mem_walk_iff he]
      simp

end Scan

end Concordance
