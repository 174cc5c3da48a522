import Concordance.Disk.Change
import Concordance.Proofs.Disk.Follow

/-!
# Changes in one place

A change of a disk happens in some places, and what stands elsewhere stays. A path cannot tell two
entries apart if they are the same file, the same link, or two folders (`Entry.Alike`): so a path
that leads to a place without going through a changed one leads there after the change too
(`Disk.follow_of_keptOff`).

A place where nothing or a file stands is an end of every path that comes to it. A change from one
such state to another (`Disk.ChangedAt`) is seen by those paths only that lead to that very place.
-/

namespace Concordance

namespace Entry

/-! ### What stands under a name -/

theorem lookup_cons_ite (m : String) (g : Entry) (entries : List (String × Entry)) (n : String) :
    ((m, g) :: entries).lookup n = if n = m then some g else entries.lookup n := by
  rw [List.lookup_cons]
  by_cases hn : n = m
  · simp [hn]
  · rw [beq_false_of_ne hn, if_neg hn]

/-- Under the name that was set stands the new entry, and under the others what stood there. -/
theorem lookup_set (name : String) (e : Entry) (entries : List (String × Entry)) (n : String) :
    (set name e entries).lookup n = if n = name then some e else entries.lookup n := by
  induction entries with
  | nil => rw [set, lookup_cons_ite]
  | cons f entries ih =>
      obtain ⟨m, g⟩ := f
      rw [set, lookup_cons_ite]
      by_cases hm : m = name
      · subst hm
        rw [if_pos (by simp), lookup_cons_ite]
        split <;> rfl
      · rw [if_neg (by simpa using hm), lookup_cons_ite, ih]
        by_cases hn : n = m
        · subst hn
          simp [hm]
        · simp [hn]

/-- Taking away one name keeps what stands under the others. -/
theorem lookup_filter_of_ne {name n : String} (hn : n ≠ name) (entries : List (String × Entry)) :
    (entries.filter fun f => !(f.1 == name)).lookup n = entries.lookup n := by
  induction entries with
  | nil => rfl
  | cons f entries ih =>
      obtain ⟨m, g⟩ := f
      rw [List.filter_cons, lookup_cons_ite]
      by_cases hm : m = name
      · subst hm
        simp [hn, ih]
      · simp only [beq_false_of_ne hm, Bool.not_false, if_true]
        rw [lookup_cons_ite, ih]

/-- Nothing stands under a name that was taken away. -/
theorem lookup_filter_self (name : String) (entries : List (String × Entry)) :
    (entries.filter fun f => !(f.1 == name)).lookup name = none := by
  rw [List.lookup_eq_none_iff]
  intro f hf
  have hname := (List.mem_filter.mp hf).2
  simp only [Bool.not_eq_true', beq_eq_false_iff_ne] at hname
  simpa using Ne.symm hname

/-- Changing what stands under one name keeps what stands under the others. -/
theorem at?_set_of_ne {name n : String} (hn : n ≠ name) (e : Entry) (rest : List String)
    (entries : List (String × Entry)) :
    at? (n :: rest) (set name e entries) = at? (n :: rest) entries := by
  rw [at?, at?, lookup_set, if_neg hn]

/-- A folder on the way was changed inside. -/
theorem at?_set_folder (name : String) (rest : List String) (inner : List (String × Entry))
    (entries : List (String × Entry)) :
    at? (name :: rest) (set name (.folder inner) entries) = at? rest inner := by
  rw [at?, lookup_set, if_pos rfl]

/-- A way into a folder goes on in what the folder holds. -/
theorem at?_of_lookup_folder {name : String} {rest : List String}
    {inner entries : List (String × Entry)} (h : entries.lookup name = some (.folder inner)) :
    at? (name :: rest) entries = at? rest inner := by
  rw [at?, h]

/-! ### What a path cannot tell apart -/

/-- Two entries that a path cannot tell apart: the same file, the same link, or two folders. -/
inductive Alike : Entry → Entry → Prop
  | file (contents : Bytes) : Alike (.file contents) (.file contents)
  | link (target : Path) : Alike (.link target) (.link target)
  | folder (inner inner' : List (String × Entry)) : Alike (.folder inner) (.folder inner')

theorem Alike.refl (e : Entry) : Alike e e := by
  cases e <;> constructor

theorem Alike.symm {e f : Entry} (h : Alike e f) : Alike f e := by
  cases h <;> constructor

theorem Alike.trans {e f g : Entry} (hef : Alike e f) (hfg : Alike f g) : Alike e g := by
  cases hef <;> cases hfg <;> constructor

theorem rel_alike_refl (x : Option Entry) : Option.Rel Alike x x := by
  cases x with
  | none => exact .none
  | some e => exact .some (.refl e)

theorem rel_alike_symm {x y : Option Entry} (h : Option.Rel Alike x y) : Option.Rel Alike y x := by
  cases h with
  | none => exact .none
  | some h => exact .some h.symm

theorem rel_alike_trans {x y z : Option Entry} (hxy : Option.Rel Alike x y)
    (hyz : Option.Rel Alike y z) : Option.Rel Alike x z := by
  cases hxy with
  | none => exact hyz
  | some halike =>
      cases hyz with
      | some halike' => exact .some (halike.trans halike')

/-- Putting an entry in a place is not seen from any place that does not lie there or below. -/
theorem rel_at?_put? {e : Entry} {way : List String} :
    ∀ {w : List String} {top top' : List (String × Entry)}, put? e way top = some top' →
      ¬ way <+: w → Option.Rel Alike (at? w top) (at? w top') := by
  induction way with
  | nil => intro w top top' h; simp [put?] at h
  | cons name way ih =>
      intro w top top' h hw
      cases w with
      | nil => exact .some (.folder _ _)
      | cons n w =>
          cases way with
          | nil =>
              cases h
              have hn : n ≠ name := by
                rintro rfl
                exact hw ⟨w, rfl⟩
              rw [at?_set_of_ne hn]
              exact rel_alike_refl _
          | cons m way =>
              rw [put?] at h
              · split at h
                · next inner hl =>
                  obtain ⟨inner', hput, rfl⟩ := Option.map_eq_some_iff.mp h
                  by_cases hn : n = name
                  · subst hn
                    rw [at?_of_lookup_folder hl, at?_set_folder]
                    exact ih hput fun hpre => hw (List.cons_prefix_cons.mpr ⟨rfl, hpre⟩)
                  · rw [at?_set_of_ne hn]
                    exact rel_alike_refl _
                · cases h
              · simp

/-- Taking an entry away is not seen from any place that does not lie there or below. -/
theorem rel_at?_remove? {way : List String} :
    ∀ {w : List String} {top top' : List (String × Entry)}, remove? way top = some top' →
      ¬ way <+: w → Option.Rel Alike (at? w top) (at? w top') := by
  induction way with
  | nil => intro w top top' h; simp [remove?] at h
  | cons name way ih =>
      intro w top top' h hw
      cases w with
      | nil => exact .some (.folder _ _)
      | cons n w =>
          cases way with
          | nil =>
              have hn : n ≠ name := by
                rintro rfl
                exact hw ⟨w, rfl⟩
              rw [remove?] at h
              split at h
              · cases h
                rw [at?, at?, lookup_filter_of_ne hn]
                exact rel_alike_refl _
              · cases h
          | cons m way =>
              rw [remove?] at h
              · split at h
                · next inner hl =>
                  obtain ⟨inner', hrem, rfl⟩ := Option.map_eq_some_iff.mp h
                  by_cases hn : n = name
                  · subst hn
                    rw [at?_of_lookup_folder hl, at?_set_folder]
                    exact ih hrem fun hpre => hw (List.cons_prefix_cons.mpr ⟨rfl, hpre⟩)
                  · rw [at?_set_of_ne hn]
                    exact rel_alike_refl _
                · cases h
              · simp

/-- What was put on a disk stands in its place. -/
theorem at?_put?_self {e : Entry} {way : List String} :
    ∀ {top top' : List (String × Entry)}, put? e way top = some top' → at? way top' = some e := by
  induction way with
  | nil => intro top top' h; simp [put?] at h
  | cons name way ih =>
      intro top top' h
      cases way with
      | nil =>
          rw [put?] at h
          cases h
          rw [at?, lookup_set, if_pos rfl]
          cases e <;> simp [at?]
      | cons m way =>
          rw [put?] at h
          · split at h
            · next inner hl =>
              obtain ⟨inner', hput, rfl⟩ := Option.map_eq_some_iff.mp h
              rw [at?_set_folder]
              exact ih hput
            · cases h
          · simp

/-- Nothing stands where an entry was taken away. -/
theorem at?_remove?_self {way : List String} :
    ∀ {top top' : List (String × Entry)}, remove? way top = some top' → at? way top' = none := by
  induction way with
  | nil => intro top top' h; simp [remove?] at h
  | cons name way ih =>
      intro top top' h
      cases way with
      | nil =>
          rw [remove?] at h
          split at h
          · cases h
            rw [at?, lookup_filter_self]
          · cases h
      | cons m way =>
          rw [remove?] at h
          · split at h
            · next inner hl =>
              obtain ⟨inner', hrem, rfl⟩ := Option.map_eq_some_iff.mp h
              rw [at?_set_folder]
              exact ih hrem
            · cases h
          · simp

/-- Where nothing can be taken away, nothing stands. -/
theorem at?_of_remove?_eq_none {way : List String} :
    ∀ {top : List (String × Entry)}, way ≠ [] → remove? way top = none → at? way top = none := by
  induction way with
  | nil => intro top hne; exact absurd rfl hne
  | cons name way ih =>
      intro top _ h
      cases way with
      | nil =>
          rw [remove?] at h
          split at h
          · cases h
          · next hl =>
            rw [Option.not_isSome_iff_eq_none] at hl
            rw [at?, hl]
      | cons m way =>
          rw [remove?] at h
          · split at h
            · next inner hl =>
              rw [at?_of_lookup_folder hl]
              exact ih (by simp) (Option.map_eq_none_iff.mp h)
            · next hl =>
              rw [at?]
              split
              · next inner hl' => exact absurd hl' (hl inner)
              · simp
              · rfl
          · simp

/-! ### Ends of paths -/

/-- Nothing, or a file: what no path goes through. -/
inductive IsEnd : Option Entry → Prop
  | missing : IsEnd none
  | file (contents : Bytes) : IsEnd (some (.file contents))

/-- What is alike to an end is an end. -/
theorem IsEnd.of_rel {x y : Option Entry} (h : IsEnd x) (hrel : Option.Rel Alike x y) :
    IsEnd y := by
  cases h with
  | missing =>
      cases hrel
      exact .missing
  | file contents =>
      cases hrel with
      | some halike =>
          cases halike
          exact .file contents

/-- What is alike to a file is that file. -/
theorem eq_file_of_rel {x : Option Entry} {contents : Bytes}
    (h : Option.Rel Alike x (some (.file contents))) : x = some (.file contents) := by
  cases h with
  | some halike =>
      cases halike
      rfl

/-- An entry with nothing in it to go to: a file, or an empty folder. -/
inductive IsBare : Entry → Prop
  | file (contents : Bytes) : IsBare (.file contents)
  | folder : IsBare (.folder [])

/-- Nothing lies below an end. -/
theorem IsEnd.at?_append {way rest : List String} {entries : List (String × Entry)}
    (h : IsEnd (at? way entries)) (hrest : rest ≠ []) : at? (way ++ rest) entries = none := by
  have hempty : rest.isEmpty = false := by simpa using hrest
  rw [Entry.at?_append]
  generalize at? way entries = x at h
  cases h with
  | missing => rfl
  | file contents => simp [hempty]

/-- Nothing lies below a bare entry. -/
theorem IsBare.at?_append {e : Entry} (he : e.IsBare) {way rest : List String}
    {entries : List (String × Entry)} (h : at? way entries = some e) (hrest : rest ≠ []) :
    at? (way ++ rest) entries = none := by
  rw [Entry.at?_append, h]
  cases he with
  | file contents => simp [hrest]
  | folder =>
      cases rest with
      | nil => exact absurd rfl hrest
      | cons name rest => rfl

end Entry

namespace Disk

/-! ### Paths that do not see a change -/

/-- What stood outside of some places stands there on the other disk too. -/
def KeptOff (P : List String → Prop) (d d' : Disk) : Prop :=
  ∀ w e, ¬ P w → d.at? w = some e → ∃ e', d'.at? w = some e' ∧ e.Alike e'

/-- How far one gets is settled outside of some places. -/
def Progress.Off (P : List String → Prop) : Progress → Prop
  | .arrived way => ¬ P way
  | .link _ _ _ => True
  | .failed _ => False

/-- What two changes keep is kept by both together. -/
theorem KeptOff.trans {P : List String → Prop} {d d' d'' : Disk} (h : KeptOff P d d')
    (h' : KeptOff P d' d'') : KeptOff P d d'' := by
  intro w e hw he
  obtain ⟨e', he', halike⟩ := h w e hw he
  obtain ⟨e'', he'', halike'⟩ := h' w e' hw he'
  exact ⟨e'', he'', halike.trans halike'⟩

section

variable {d : Disk} {way : List String} {inner : List (String × Entry)} {name : String}
  {names : List String}

/-- The name `..` goes up from a folder. -/
theorem advance_up (hat : d.at? way = some (.folder inner)) :
    d.advance way (".." :: names) = d.advance way.dropLast names := by
  rw [advance, hat]
  rfl

/-- Any other name leads into the folder, to what stands there. -/
theorem advance_into (hat : d.at? way = some (.folder inner)) (hname : name ≠ "..") {e : Entry}
    (he : d.at? (way ++ [name]) = some e) (hplain : ∀ target, e ≠ .link target) :
    d.advance way (name :: names) = d.advance (way ++ [name]) names := by
  have hlookup : inner.lookup name = some e := (Entry.at?_concat hat name).symm.trans he
  rw [advance, hat]
  dsimp only
  rw [if_neg (by simpa using hname), hlookup]
  cases e with
  | link target => exact absurd rfl (hplain target)
  | file contents => rfl
  | folder entries => rfl

/-- It stops at a link. -/
theorem advance_link (hat : d.at? way = some (.folder inner)) (hname : name ≠ "..") {target : Path}
    (hlink : d.at? (way ++ [name]) = some (.link target)) :
    d.advance way (name :: names) = .link way target names := by
  have hlookup : inner.lookup name = some (.link target) :=
    (Entry.at?_concat hat name).symm.trans hlink
  rw [advance, hat]
  dsimp only
  rw [if_neg (by simpa using hname), hlookup]

variable {P : List String → Prop}

/-- Whoever gets on by a name stands in a folder, and something bears the name. -/
theorem exists_of_off (hoff : (d.advance way (name :: names)).Off P) :
    ∃ inner, d.at? way = some (.folder inner) ∧
      (name = ".." ∨ ∃ e, d.at? (way ++ [name]) = some e) := by
  rw [advance] at hoff
  split at hoff
  · next inner hat =>
    refine ⟨inner, hat, ?_⟩
    by_cases hname : name = ".."
    · exact .inl hname
    · rw [if_neg (by simpa using hname)] at hoff
      right
      have hnext : d.at? (way ++ [name]) = inner.lookup name := Entry.at?_concat hat name
      cases he : inner.lookup name with
      | none =>
          rw [he] at hoff
          exact hoff.elim
      | some e => exact ⟨e, hnext.trans he⟩
  · exact hoff.elim

end

/-- **Going along names.** If the places of a change are ends, whoever does not stop in one of them
gets as far after the change as before. -/
theorem advance_of_keptOff {P : List String → Prop} {d d' : Disk}
    (hend : ∀ w, P w → Entry.IsEnd (d.at? w)) (h : KeptOff P d d') {names : List String} :
    ∀ {way : List String}, (d.advance way names).Off P →
      d'.advance way names = d.advance way names := by
  induction names with
  | nil => intro way _; rfl
  | cons name names ih =>
      intro way hoff
      obtain ⟨inner, hat, hthere⟩ := exists_of_off hoff
      have hway : ¬ P way := by
        intro hP
        have := hend way hP
        rw [hat] at this
        cases this
      obtain ⟨_, hat', ⟨_, inner'⟩⟩ := h way _ hway hat
      by_cases hup : name = ".."
      · subst hup
        rw [advance_up hat] at hoff ⊢
        rw [advance_up hat', ih hoff]
      · obtain ⟨e, he⟩ := hthere.resolve_left hup
        have hnext : ¬ P (way ++ [name]) := by
          -- an end in a changed place is no way on, and no place to stop
          intro hP
          have hfile := hend _ hP
          rw [he] at hfile
          cases hfile with
          | file contents =>
              rw [advance_into hat hup he (by simp)] at hoff
              cases names with
              | nil => exact hoff hP
              | cons m names =>
                  obtain ⟨_, hfolder, -⟩ := exists_of_off hoff
                  rw [he] at hfolder
                  cases hfolder
        obtain ⟨e', he', halike⟩ := h _ e hnext he
        cases halike with
        | link target => rw [advance_link hat hup he, advance_link hat' hup he']
        | file contents =>
            rw [advance_into hat hup he (by simp)] at hoff ⊢
            rw [advance_into hat' hup he' (by simp), ih hoff]
        | folder entries entries' =>
            rw [advance_into hat hup he (by simp)] at hoff ⊢
            rw [advance_into hat' hup he' (by simp), ih hoff]

/-- **Going along a path.** A path that leads to a place outside the changed ones, which are ends,
leads there after the change. -/
theorem follow_of_keptOff {P : List String → Prop} {d d' : Disk}
    (hend : ∀ w, P w → Entry.IsEnd (d.at? w)) (h : KeptOff P d d') {fuel : Nat} :
    ∀ {way names stop : List String}, d.follow fuel way names = .ok stop → ¬ P stop →
      d'.follow fuel way names = .ok stop := by
  induction fuel with
  | zero => intro way names stop hstop; cases hstop
  | succ fuel ih =>
      intro way names stop hstop hP
      rw [follow] at hstop ⊢
      cases hadv : d.advance way names with
      | arrived w =>
          rw [hadv] at hstop
          cases hstop
          rw [advance_of_keptOff hend h (by rw [hadv]; exact hP), hadv]
      | link folder target rest =>
          rw [hadv] at hstop
          rw [advance_of_keptOff hend h (by rw [hadv]; trivial), hadv]
          exact ih hstop hP
      | failed f => rw [hadv] at hstop; cases hstop

/-- The same for a path from the top. -/
theorem locate_of_keptOff {P : List String → Prop} {d d' : Disk}
    (hend : ∀ w, P w → Entry.IsEnd (d.at? w)) (h : KeptOff P d d') {names stop : List String}
    (hstop : d.locate names = .ok stop) (hP : ¬ P stop) : d'.locate names = .ok stop :=
  follow_of_keptOff hend h hstop hP

/-! ### One place -/

/-- Two disks that are alike outside of some places keep what stands there. -/
theorem keptOff_of_rel {P : List String → Prop} {d d' : Disk}
    (h : ∀ w, ¬ P w → Option.Rel Entry.Alike (d.at? w) (d'.at? w)) : KeptOff P d d' := by
  intro w e hw he
  have hrel := h w hw
  rw [he] at hrel
  generalize d'.at? w = x at hrel
  cases hrel with
  | some halike => exact ⟨_, rfl, halike⟩

/-- One disk becomes another by a change in one place, which is an end of every path before and
after. -/
structure ChangedAt (way : List String) (d d' : Disk) : Prop where
  alike : ∀ w, w ≠ way → Option.Rel Entry.Alike (d.at? w) (d'.at? w)
  isEnd : Entry.IsEnd (d.at? way)
  isEnd' : Entry.IsEnd (d'.at? way)

/-- A change in one place can be undone by another one there. -/
theorem ChangedAt.symm {way : List String} {d d' : Disk} (h : ChangedAt way d d') :
    ChangedAt way d' d :=
  ⟨fun w hw => Entry.rel_alike_symm (h.alike w hw), h.isEnd', h.isEnd⟩

/-- Whoever does not stop in the place of a change gets as far as before. -/
theorem ChangedAt.advance_eq {way start names : List String} {d d' : Disk} (h : ChangedAt way d d')
    (hoff : (d.advance start names).Off (· = way)) :
    d'.advance start names = d.advance start names :=
  advance_of_keptOff (by rintro w rfl; exact h.isEnd) (keptOff_of_rel h.alike) hoff

/-- A path that leads elsewhere leads there after the change. -/
theorem ChangedAt.locate {way names stop : List String} {d d' : Disk} (h : ChangedAt way d d')
    (hstop : d.locate names = .ok stop) (hne : stop ≠ way) : d'.locate names = .ok stop :=
  locate_of_keptOff (by rintro w rfl; exact h.isEnd) (keptOff_of_rel h.alike) hstop hne

/-- A path that does not lead to the place of a change reads the same before and after. -/
theorem ChangedAt.read?_eq {way names : List String} {d d' : Disk} (h : ChangedAt way d d')
    (hd : d.locate names ≠ .ok way) (hd' : d'.locate names ≠ .ok way) :
    d'.read? names = d.read? names := by
  cases hl : d.locate names with
  | ok stop =>
      have hne : stop ≠ way := fun heq => hd (by rw [hl, heq])
      have hl' := h.locate hl hne
      rw [read?, read?, entry?, entry?, hl, hl']
      dsimp only
      have hrel := h.alike stop hne
      cases hat : d.at? stop with
      | none =>
          rw [hat] at hrel
          generalize d'.at? stop = x at hrel
          cases hrel
          rfl
      | some e =>
          rw [hat] at hrel
          generalize d'.at? stop = x at hrel
          cases hrel with
          | some halike => cases halike <;> rfl
  | error f =>
      cases hl' : d'.locate names with
      | ok stop =>
          have hne : stop ≠ way := fun heq => hd' (by rw [hl', heq])
          rw [h.symm.locate hl' hne] at hl
          cases hl
      | error f' => rw [read?_of_locate_error hl, read?_of_locate_error hl']

/-- What an accepted change put on a disk stands there. -/
theorem at?_of_put {d d' : Disk} {way : List String} {e : Entry} (h : d.put way e = .ok d') :
    d'.at? way = some e := by
  unfold put at h
  split at h
  · next top htop =>
    cases h
    exact Entry.at?_put?_self htop
  · cases h

/-- Putting something somewhere changes nothing that does not stand below it. -/
theorem rel_at?_of_put {d d' : Disk} {way w : List String} {e : Entry} (h : d.put way e = .ok d')
    (hw : ¬ way <+: w) : Option.Rel Entry.Alike (d.at? w) (d'.at? w) := by
  unfold put at h
  split at h
  · next top htop =>
    cases h
    exact Entry.rel_at?_put? htop hw
  · cases h

/-- Below an end and below a bare entry is nothing: a bare entry that takes the place of an end
changes nothing else. -/
theorem rel_at?_of_put_bare {d d' : Disk} {way w : List String} {e : Entry} (he : e.IsBare)
    (hend : Entry.IsEnd (d.at? way)) (h : d.put way e = .ok d') (hw : w ≠ way) :
    Option.Rel Entry.Alike (d.at? w) (d'.at? w) := by
  by_cases hpre : way <+: w
  · obtain ⟨rest, rfl⟩ := hpre
    have hrest : rest ≠ [] := by rintro rfl; exact hw (List.append_nil way)
    have hbelow : d.at? (way ++ rest) = none := hend.at?_append hrest
    have hbelow' : d'.at? (way ++ rest) = none := he.at?_append (at?_of_put h) hrest
    rw [hbelow, hbelow']
    exact .none
  · exact rel_at?_of_put h hpre

/-- Putting a file where nothing or a file stands is a change in one place. -/
theorem changedAt_put {d d' : Disk} {way : List String} {contents : Bytes}
    (hend : Entry.IsEnd (d.at? way)) (h : d.put way (.file contents) = .ok d') :
    ChangedAt way d d' := by
  refine ⟨fun w hw => rel_at?_of_put_bare (.file contents) hend h hw, hend, ?_⟩
  rw [at?_of_put h]
  exact .file contents

/-- Putting an empty folder where nothing stands keeps all that stands on the disk. -/
theorem keptOff_put_folder {d d' : Disk} {way : List String} (hnone : d.at? way = none)
    (h : d.put way (.folder []) = .ok d') : KeptOff (fun _ => False) d d' := by
  have hend : Entry.IsEnd (d.at? way) := hnone ▸ .missing
  intro w e _ he
  refine keptOff_of_rel (fun w hw => rel_at?_of_put_bare .folder hend h hw) w e ?_ he
  rintro rfl
  rw [hnone] at he
  cases he

end Disk

end Concordance
