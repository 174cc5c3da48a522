import Concordance.Proofs.Disk.Plain

/-!
# Where paths lead

A path leads to a place where something stands (`Disk.exists_at?_of_locate`). A longer path is gone
along part by part: where its first part leads to a folder, the rest is gone along from there
(`Disk.exists_follow_append`), so the path of an entry in a folder leads to that entry unless it is
a link (`Disk.locate_concat`).
-/

namespace Concordance.Disk

/-! ### Something stands where a path leads -/

/-- Where going along a path arrives, something stands; where it meets a link, the link stands in
a folder. -/
theorem exists_at?_of_advance {d : Disk} {names : List String} :
    ∀ {way stop : List String}, (∃ e, d.at? way = some e) → d.advance way names = .arrived stop →
      ∃ e, d.at? stop = some e := by
  induction names with
  | nil => intro way stop hway h; cases h; exact hway
  | cons name names ih =>
      intro way stop hway h
      rw [advance] at h
      split at h
      · next inner hinner =>
        split at h
        · obtain ⟨outer, houter⟩ := exists_folder_dropLast hinner
          exact ih ⟨_, houter⟩ h
        · split at h
          · cases h
          · cases h
          · next e _ hl => exact ih ⟨e, by rw [Disk.at?, Entry.at?_concat hinner, hl]⟩ h
      · cases h

/-- A link that one comes to stands in a folder. -/
theorem exists_folder_of_advance_link {d : Disk} {names : List String} :
    ∀ {way folder rest : List String} {target : Path},
      d.advance way names = .link folder target rest →
      ∃ inner, d.at? folder = some (.folder inner) := by
  induction names with
  | nil => intro way folder rest target h; cases h
  | cons name names ih =>
      intro way folder rest target h
      rw [advance] at h
      split at h
      · next inner hinner =>
        split at h
        · exact ih h
        · split at h
          · cases h
          · cases h
            exact ⟨inner, hinner⟩
          · exact ih h
      · cases h

/-- The target of a link is followed from a place where something stands. -/
theorem exists_at?_startOf {d : Disk} {folder : List String} {inner : List (String × Entry)}
    (h : d.at? folder = some (.folder inner)) (target : Path) :
    ∃ e, d.at? (startOf folder target) = some e := by
  unfold startOf
  split
  · exact ⟨_, rfl⟩
  · exact ⟨_, h⟩

/-- Something stands where a path leads. -/
theorem exists_at?_of_follow {d : Disk} {fuel : Nat} :
    ∀ {way names stop : List String}, (∃ e, d.at? way = some e) →
      d.follow fuel way names = .ok stop → ∃ e, d.at? stop = some e := by
  induction fuel with
  | zero => intro way names stop _ h; cases h
  | succ fuel ih =>
      intro way names stop hway h
      rw [follow] at h
      split at h
      · next w hadv =>
        cases h
        exact exists_at?_of_advance hway hadv
      · next folder target rest hadv =>
        obtain ⟨inner, hinner⟩ := exists_folder_of_advance_link hadv
        exact ih (exists_at?_startOf hinner target) h
      · cases h

/-- The same from the top of the disk. -/
theorem exists_at?_of_locate {d : Disk} {names stop : List String}
    (h : d.locate names = .ok stop) : ∃ e, d.at? stop = some e :=
  exists_at?_of_follow ⟨_, rfl⟩ h

/-! ### Paths one after the other -/

/-- Going along two paths one after the other. -/
theorem advance_append (d : Disk) (names rest : List String) :
    ∀ way : List String, d.advance way (names ++ rest) =
      match d.advance way names with
      | .arrived stop => d.advance stop rest
      | .link folder target left => .link folder target (left ++ rest)
      | .failed f => .failed f := by
  induction names with
  | nil => intro way; rfl
  | cons name names ih =>
      intro way
      rw [List.cons_append, advance, advance]
      cases hat : d.at? way with
      | none => rfl
      | some e =>
          cases e with
          | file contents => rfl
          | link target => rfl
          | folder inner =>
              dsimp only
              by_cases hup : (name == "..") = true
              · rw [if_pos hup, if_pos hup, ih]
              · rw [if_neg hup, if_neg hup]
                cases hl : inner.lookup name with
                | none => rfl
                | some x =>
                    cases x with
                    | file contents => exact ih _
                    | link target => rfl
                    | folder inner' => exact ih _

/-- A path that leads somewhere can be gone on from there, through one link less for each that it
went through. -/
theorem exists_follow_append {d : Disk} {fuel : Nat} :
    ∀ {way names stop : List String}, d.follow fuel way names = .ok stop →
      ∃ left, ∀ rest, d.follow fuel way (names ++ rest) = d.follow (left + 1) stop rest := by
  induction fuel with
  | zero => intro way names stop h; cases h
  | succ fuel ih =>
      intro way names stop h
      rw [follow] at h
      split at h
      · next w hadv =>
        cases h
        refine ⟨fuel, fun rest => ?_⟩
        rw [follow, advance_append, hadv, follow]
      · next folder target left hadv =>
        obtain ⟨fuel', hrest⟩ := ih h
        refine ⟨fuel', fun rest => ?_⟩
        rw [follow, advance_append, hadv]
        dsimp only
        rw [← List.append_assoc]
        exact hrest rest
      · cases h

/-- A path leads somewhere only if its first part does, and to a folder if there is more to come. -/
theorem exists_of_follow_append {d : Disk} {fuel : Nat} {rest : List String} (hrest : rest ≠ []) :
    ∀ {way names stop : List String}, d.follow fuel way (names ++ rest) = .ok stop →
      ∃ folder inner, d.follow fuel way names = .ok folder ∧
        d.at? folder = some (.folder inner) := by
  induction fuel with
  | zero => intro way names stop h; cases h
  | succ fuel ih =>
      intro way names stop h
      rw [follow, advance_append] at h
      rw [follow]
      cases hadv : d.advance way names with
      | arrived w =>
          rw [hadv] at h
          dsimp only at h
          refine ⟨w, ?_⟩
          cases rest with
          | nil => exact absurd rfl hrest
          | cons name rest =>
              cases hat : d.at? w with
              | none => rw [advance, hat] at h; cases h
              | some e =>
                  cases e with
                  | folder inner => exact ⟨inner, rfl, rfl⟩
                  | file contents => rw [advance, hat] at h; cases h
                  | link target => rw [advance, hat] at h; cases h
      | link folder target left =>
          rw [hadv] at h
          dsimp only at h ⊢
          rw [← List.append_assoc] at h
          exact ih h
      | failed f => rw [hadv] at h; cases h

/-- What a path leads to in a folder that another leads to, under a name where no link stands. -/
theorem locate_concat {d : Disk} {names folder : List String} {inner : List (String × Entry)}
    (h : d.locate names = .ok folder) (hfolder : d.at? folder = some (.folder inner))
    {name : String} (hname : name ≠ "..")
    (hlink : ∀ target, inner.lookup name ≠ some (.link target)) :
    d.locate (names ++ [name]) =
      if (inner.lookup name).isSome then .ok (folder ++ [name]) else .error .missing := by
  obtain ⟨left, hrest⟩ := exists_follow_append h
  rw [locate, hrest, follow, advance, hfolder]
  dsimp only
  rw [if_neg (by simpa using hname)]
  cases hl : inner.lookup name with
  | none => rfl
  | some e =>
      cases e with
      | link target => exact absurd hl (hlink target)
      | file contents => rfl
      | folder inner' => rfl

/-- What is read is what stands where the path leads. -/
theorem read?_of_locate {d : Disk} {names way : List String} {contents : Bytes}
    (h : d.locate names = .ok way) (hat : d.at? way = some (.file contents)) :
    d.read? names = some contents := by
  rw [read?, entry?, h]
  dsimp only
  rw [hat]

/-- Through a path that leads nowhere nothing is read. -/
theorem read?_of_locate_error {d : Disk} {names : List String} {f : DiskFault}
    (h : d.locate names = .error f) : d.read? names = none := by
  rw [read?, entry?, h]

/-- A file in a folder that a path leads to is read under its name. -/
theorem read?_concat {d : Disk} {names folder : List String} {name : String} {contents : Bytes}
    (h : d.locate names = .ok folder) (hname : name ≠ "..")
    (hfile : d.at? (folder ++ [name]) = some (.file contents)) :
    d.read? (names ++ [name]) = some contents := by
  obtain ⟨inner, hinner⟩ := Entry.exists_folder_of_concat hfile
  have hlookup : inner.lookup name = some (.file contents) :=
    (Entry.at?_concat hinner name).symm.trans hfile
  have hlocate := locate_concat h hinner hname (by simp [hlookup])
  rw [hlookup, Option.isSome_some, if_pos rfl] at hlocate
  exact read?_of_locate hlocate hfile

end Concordance.Disk
