import Concordance.Proofs.Disk.Folders

/-!
# What the files of a disk hold

A change of a disk brings no contents to it but those that are written: whatever a file holds
afterwards, wherever it stands, some file held before or it was just written. This is so on every
disk, also where paths go through links. So storing an index brings the text of the index and no
other (`Holds.of_save`), and the file of a lock brings an empty text (`Holds.of_makeLockFile`).
-/

namespace Concordance

namespace Entry

/-- Below equal entries stands the same. -/
theorem at?_append_congr {way way' : List String} {entries entries' : List (String × Entry)}
    (h : at? way entries = at? way' entries') (rest : List String) :
    at? (way ++ rest) entries = at? (way' ++ rest) entries' := by
  rw [at?_append, at?_append, h]

end Entry

namespace Disk

/-- Some file on a disk has these contents. -/
def Holds (d : Disk) (contents : Bytes) : Prop :=
  ∃ way, d.at? way = some (.file contents)

variable {d d' : Disk} {c : Bytes}

/-- What is read from a disk is held by it. -/
theorem holds_of_read? {names : List String} (h : d.read? names = some c) : d.Holds c := by
  obtain ⟨way, -, hway⟩ := exists_way_of_read? h
  exact ⟨way, hway⟩

/-- Contents come from the rest of the disk or lie in the entry that was put there. -/
theorem Holds.of_put {way : List String} {e : Entry} (h : d.put way e = .ok d')
    (hc : d'.Holds c) : d.Holds c ∨ ∃ rest, d'.at? (way ++ rest) = some (.file c) := by
  obtain ⟨w, hw⟩ := hc
  by_cases hpre : way <+: w
  · obtain ⟨rest, rfl⟩ := hpre
    exact .inr ⟨rest, hw⟩
  · have hrel := rel_at?_of_put h hpre
    rw [hw] at hrel
    exact .inl ⟨w, Entry.eq_file_of_rel hrel⟩

/-- A file or an empty folder brings no contents but its own. -/
theorem Holds.of_put_bare {way : List String} {e : Entry} (he : e.IsBare)
    (h : d.put way e = .ok d') (hc : d'.Holds c) : d.Holds c ∨ e = .file c := by
  rcases hc.of_put h with hold | ⟨rest, hrest⟩
  · exact .inl hold
  · by_cases hnil : rest = []
    · rw [hnil, List.append_nil, at?_of_put h] at hrest
      exact .inr (Option.some.inj hrest)
    · have hbelow : d'.at? (way ++ rest) = none := he.at?_append (at?_of_put h) hnil
      rw [hbelow] at hrest
      cases hrest

/-- Taking an entry away brings nothing. -/
theorem Holds.of_without {way : List String} (hc : (d.without way).Holds c) : d.Holds c := by
  unfold without at hc
  split at hc
  · next top htop =>
    obtain ⟨w, hw⟩ := hc
    have hpre : ¬ way <+: w := by
      rintro ⟨rest, rfl⟩
      have hnone := Entry.at?_remove?_self htop
      rw [Disk.at?, Entry.at?_append, hnone] at hw
      cases hw
    have hrel := Entry.rel_at?_remove? htop hpre
    rw [Disk.at?] at hw
    rw [hw] at hrel
    exact ⟨w, Entry.eq_file_of_rel hrel⟩
  · exact hc

/-- Taking away a file brings no contents. -/
theorem Holds.of_withoutFile {way : List String} (hc : (d.withoutFile way).Holds c) :
    d.Holds c := by
  unfold withoutFile at hc
  split at hc
  · exact hc
  · exact hc.of_without

/-- Renaming moves contents. -/
theorem Holds.of_rename {folder : List String} {name newName : String}
    (h : d.rename folder name newName = .ok d') (hc : d'.Holds c) : d.Holds c := by
  unfold rename at h
  split at h
  · cases h
  · split at h
    · next e he =>
      rcases hc.of_put h with hold | ⟨rest, hrest⟩
      · exact hold.of_without
      · refine ⟨folder ++ [name] ++ rest, ?_⟩
        rw [← hrest]
        exact Entry.at?_append_congr (he.trans (at?_of_put h).symm) rest
    · cases h

/-- Making folders brings no contents. -/
theorem Holds.of_makeFoldersFrom {names : List String} :
    ∀ {d d' : Disk} {done : List String}, d.makeFoldersFrom done names = .ok d' → d'.Holds c →
      d.Holds c := by
  induction names with
  | nil =>
      intro d d' done h hc
      cases h
      exact hc
  | cons name names ih =>
      intro d d' done h hc
      rw [Disk.makeFoldersFrom] at h
      split at h
      · split at h
        · exact ih h hc
        · cases h
      · obtain ⟨folder, -, h⟩ := Attempt.exists_of_bind_eq_ok h
        split at h
        · cases h
        · obtain ⟨made, hput, h⟩ := Attempt.exists_of_bind_eq_ok h
          rcases (ih h hc).of_put_bare .folder hput with hold | hfile
          · exact hold
          · cases hfile
      · cases h

/-- Neither does making folders. -/
theorem Holds.of_makeFolders {names : List String} (h : d.makeFolders names = .ok d')
    (hc : d'.Holds c) : d.Holds c :=
  Holds.of_makeFoldersFrom h hc

/-- Writing a file brings what is written. -/
theorem Holds.of_write {names : List String} {contents : Bytes}
    (h : d.write names contents = .ok d') (hc : d'.Holds c) : d.Holds c ∨ c = contents := by
  unfold write at h
  obtain ⟨way, -, hput⟩ := Attempt.exists_of_bind_eq_ok h
  rcases hc.of_put_bare (.file contents) hput with hold | hfile
  · exact .inl hold
  · exact .inr (Entry.file.inj hfile).symm

/-- **Making the file of a lock.** -/
theorem Holds.of_makeLockFile {file : Path} (h : Host.makeLockFile d file = .ok d')
    (hc : d'.Holds c) : d.Holds c ∨ c = [] := by
  rw [Host.makeLockFile] at h
  obtain ⟨made, hmade, h⟩ := Attempt.exists_of_bind_eq_ok h
  split at h
  · cases h
    exact .inl (hc.of_makeFolders hmade)
  · rcases hc.of_write h with hold | hempty
    · exact .inl (hold.of_makeFolders hmade)
    · exact .inr hempty

/-- Writing by a draft, whether it succeeds or not. -/
theorem Holds.of_writeByDraft {folder : List String} {draft file : Path} {contents : Bytes}
    (hc : (d.writeByDraft folder draft file contents).1.Holds c) : d.Holds c ∨ c = contents := by
  unfold writeByDraft at hc
  split at hc
  · exact .inl hc.of_withoutFile
  · next written hwrite =>
    split at hc
    · next moved hmoved => exact (hc.of_rename hmoved).of_write hwrite
    · exact hc.of_withoutFile.of_write hwrite

/-- **Storing an index**, whether it succeeds or not. -/
theorem Holds.of_save {index : ProjectIndex} {file : Path}
    (hc : (index.save d file).1.Holds c) : d.Holds c ∨ c = Utf8.bytes index.stored := by
  unfold ProjectIndex.save at hc
  split at hc
  · exact .inl hc
  · next made hmade =>
    split at hc
    · exact .inl (hc.of_makeFolders hmade)
    · rcases hc.of_writeByDraft with hold | htext
      · exact .inl (hold.of_makeFolders hmade)
      · exact .inr htext

end Disk

end Concordance
