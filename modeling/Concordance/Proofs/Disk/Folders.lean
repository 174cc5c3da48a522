import Concordance.Proofs.Disk.Change

/-!
# Folders along a path

Folders are made one after the other along a path, and only where nothing stands; so all that stood
on the disk still stands (`Disk.keptOff_makeFolders`). Afterwards the path leads to a folder
(`Disk.leadsToFolder_makeFolders`), and making it again changes nothing
(`Disk.makeFolders_of_leadsToFolder`). Along a path that never goes up, a folder that was made is
empty (`Disk.makeFoldersFrom_eq_or_empty`).
-/

namespace Concordance.Disk

/-- A path leads to a folder. -/
def LeadsToFolder (d : Disk) (names : List String) : Prop :=
  ∃ folder inner, d.locate names = .ok folder ∧ d.at? folder = some (.folder inner)

/-- A new folder was made for the last name of a path. -/
structure Made (d : Disk) (names : List String) (name : String) (made : Disk) : Prop where
  kept : KeptOff (fun _ => False) d made
  located : ∃ folder, made.locate (names ++ [name]) = .ok folder ∧
    made.at? folder = some (.folder [])

/-- Disks on which all stands that stood on others lead to the same places. -/
theorem KeptOff.locate {d d' : Disk} (h : KeptOff (fun _ => False) d d') {names stop : List String}
    (hstop : d.locate names = .ok stop) : d'.locate names = .ok stop :=
  locate_of_keptOff (fun _ hfalse => hfalse.elim) h hstop id

/-- A path to a folder leads through folders. -/
theorem LeadsToFolder.of_append {d : Disk} {names rest : List String}
    (h : d.LeadsToFolder (names ++ rest)) : d.LeadsToFolder names := by
  obtain ⟨folder, inner, hfolder, hinner⟩ := h
  cases rest with
  | nil => exact ⟨folder, inner, by rwa [List.append_nil] at hfolder, hinner⟩
  | cons name rest =>
      obtain ⟨before, inner', hbefore, hinner'⟩ := exists_of_follow_append (by simp) hfolder
      exact ⟨before, inner', hbefore, hinner'⟩

/-- A name that is missing in the folder that a path leads to does not go up. -/
theorem ne_up_of_locate_missing {d : Disk} {names folder : List String} {name : String}
    {inner : List (String × Entry)} (hfolder : d.locate names = .ok folder)
    (hinner : d.at? folder = some (.folder inner))
    (hmissing : d.locate (names ++ [name]) = .error .missing) : name ≠ ".." := by
  rintro rfl
  obtain ⟨left, hgo⟩ := exists_follow_append hfolder
  rw [locate, hgo, follow, advance, hinner] at hmissing
  cases hmissing

/-- A missing name in what is no folder is not what a path fails at. -/
theorem exists_folder_of_locate_missing {d : Disk} {names folder : List String} {name : String}
    (hfolder : d.locate names = .ok folder)
    (hmissing : d.locate (names ++ [name]) = .error .missing) :
    ∃ inner, d.at? folder = some (.folder inner) := by
  obtain ⟨left, hgo⟩ := exists_follow_append hfolder
  rw [locate, hgo, follow, advance] at hmissing
  split at hmissing
  · next hadv =>
    split at hadv
    · next inner hinner => exact ⟨inner, hinner⟩
    · cases hadv
  · next hadv =>
    split at hadv
    · next inner hinner => exact ⟨inner, hinner⟩
    · cases hadv
  · next f hadv =>
    split at hadv
    · next inner hinner => exact ⟨inner, hinner⟩
    · cases hadv
      cases hmissing

/-- **One name.** Along the first name of a path a folder stands already, or a new one is made. -/
theorem makeFoldersFrom_cons {d d' : Disk} {done rest : List String} {name : String}
    (h : d.makeFoldersFrom done (name :: rest) = .ok d') :
    (d.LeadsToFolder (done ++ [name]) ∧ d.makeFoldersFrom (done ++ [name]) rest = .ok d') ∨
      (d.locate (done ++ [name]) = .error .missing ∧
        ∃ made, Made d done name made ∧ made.makeFoldersFrom (done ++ [name]) rest = .ok d') := by
  rw [makeFoldersFrom] at h
  split at h
  · next way hway =>
    split at h
    · next inner hinner => exact Or.inl ⟨⟨way, inner, hway, hinner⟩, h⟩
    · cases h
  · next hmissing =>
    right
    obtain ⟨folder, hfolder, h⟩ := Attempt.exists_of_bind_eq_ok h
    split at h
    · cases h
    · next hnone =>
      rw [Option.not_isSome_iff_eq_none] at hnone
      obtain ⟨made, hput, h⟩ := Attempt.exists_of_bind_eq_ok h
      have hkept := keptOff_put_folder hnone hput
      obtain ⟨inner, hinner⟩ := exists_folder_of_locate_missing hfolder hmissing
      have hname := ne_up_of_locate_missing hfolder hinner hmissing
      have hnew := at?_of_put hput
      obtain ⟨inner', hinner'⟩ := Entry.exists_folder_of_concat hnew
      have hlookup : inner'.lookup name = some (.folder []) :=
        (Entry.at?_concat hinner' name).symm.trans hnew
      have hlocate := locate_concat (hkept.locate hfolder) hinner' hname (by simp [hlookup])
      rw [hlookup, Option.isSome_some, if_pos rfl] at hlocate
      exact ⟨hmissing, made, ⟨hkept, folder ++ [name], hlocate, hnew⟩, h⟩
  · cases h

/-- Making folders changes nothing that was there. -/
theorem keptOff_makeFoldersFrom {names : List String} :
    ∀ {d d' : Disk} {done : List String}, d.makeFoldersFrom done names = .ok d' →
      KeptOff (fun _ => False) d d' := by
  induction names with
  | nil =>
      intro d d' done h
      cases h
      exact fun w e _ he => ⟨e, he, .refl e⟩
  | cons name names ih =>
      intro d d' done h
      rcases makeFoldersFrom_cons h with ⟨-, hrest⟩ | ⟨-, made, hmade, hrest⟩
      · exact ih hrest
      · exact hmade.kept.trans (ih hrest)

/-- Making folders keeps all that stands on a disk. -/
theorem keptOff_makeFolders {d d' : Disk} {names : List String}
    (h : d.makeFolders names = .ok d') : KeptOff (fun _ => False) d d' :=
  keptOff_makeFoldersFrom h

/-- Once the folders are made the path leads to the last of them. -/
theorem leadsToFolder_makeFoldersFrom {names : List String} :
    ∀ {d d' : Disk} {done : List String}, d.LeadsToFolder done →
      d.makeFoldersFrom done names = .ok d' → d'.LeadsToFolder (done ++ names) := by
  induction names with
  | nil =>
      intro d d' done hdone h
      cases h
      rwa [List.append_nil]
  | cons name names ih =>
      intro d d' done hdone h
      rw [List.append_cons]
      rcases makeFoldersFrom_cons h with ⟨hname, hrest⟩ | ⟨-, made, hmade, hrest⟩
      · exact ih hname hrest
      · obtain ⟨folder, hfolder, hempty⟩ := hmade.located
        exact ih ⟨folder, [], hfolder, hempty⟩ hrest

/-- **Once folders were made along a path it leads to a folder.** -/
theorem leadsToFolder_makeFolders {d d' : Disk} {names : List String}
    (h : d.makeFolders names = .ok d') : d'.LeadsToFolder names := by
  have hstart : d.LeadsToFolder [] := ⟨[], d.top, rfl, rfl⟩
  exact leadsToFolder_makeFoldersFrom hstart h

/-- Folders that are there need not be made. -/
theorem makeFoldersFrom_of_leadsToFolder {d : Disk} {names : List String} :
    ∀ {done : List String}, d.LeadsToFolder (done ++ names) →
      d.makeFoldersFrom done names = .ok d := by
  induction names with
  | nil => intro done _; rfl
  | cons name names ih =>
      intro done h
      rw [List.append_cons] at h
      obtain ⟨folder, inner, hfolder, hinner⟩ := h.of_append
      rw [makeFoldersFrom, hfolder]
      dsimp only
      rw [hinner]
      exact ih h

/-- Where a path leads to a folder there is nothing to make. -/
theorem makeFolders_of_leadsToFolder {d : Disk} {names : List String}
    (h : d.LeadsToFolder names) : d.makeFolders names = .ok d :=
  makeFoldersFrom_of_leadsToFolder (by rwa [List.nil_append])

/-- Folders that are made in an empty folder end with an empty one. -/
theorem empty_makeFoldersFrom {names : List String} (hnames : ".." ∉ names) :
    ∀ {d d' : Disk} {done folder : List String}, d.locate done = .ok folder →
      d.at? folder = some (.folder []) → d.makeFoldersFrom done names = .ok d' →
      ∃ last, d'.locate (done ++ names) = .ok last ∧ d'.at? last = some (.folder []) := by
  induction names with
  | nil =>
      intro d d' done folder hfolder hempty h
      cases h
      exact ⟨folder, by rwa [List.append_nil], hempty⟩
  | cons name names ih =>
      intro d d' done folder hfolder hempty h
      rw [List.mem_cons, not_or] at hnames
      rw [List.append_cons]
      rcases makeFoldersFrom_cons h with ⟨hleads, -⟩ | ⟨-, made, hmade, hrest⟩
      · -- in an empty folder no name leads on
        obtain ⟨stop, inner, hstop, -⟩ := hleads
        rw [locate_concat hfolder hempty (Ne.symm hnames.1) (by simp)] at hstop
        cases hstop
      · obtain ⟨last, hlast, hlastEmpty⟩ := hmade.located
        exact ih hnames.2 hlast hlastEmpty hrest

/-- **What is made is empty.** Along a path that never goes up either nothing was made, or the path
now leads to an empty folder. -/
theorem makeFoldersFrom_eq_or_empty {names : List String} (hnames : ".." ∉ names) :
    ∀ {d d' : Disk} {done : List String}, d.makeFoldersFrom done names = .ok d' →
      d' = d ∨
        ∃ last, d'.locate (done ++ names) = .ok last ∧ d'.at? last = some (.folder []) := by
  induction names with
  | nil =>
      intro d d' done h
      cases h
      exact Or.inl rfl
  | cons name names ih =>
      intro d d' done h
      rw [List.mem_cons, not_or] at hnames
      rw [List.append_cons]
      rcases makeFoldersFrom_cons h with ⟨-, hrest⟩ | ⟨-, made, hmade, hrest⟩
      · exact ih hnames.2 hrest
      · obtain ⟨last, hlast, hempty⟩ := hmade.located
        exact Or.inr (empty_makeFoldersFrom hnames.2 hlast hempty hrest)

end Concordance.Disk
