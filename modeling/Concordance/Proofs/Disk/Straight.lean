import Concordance.Proofs.Disk.Real

/-!
# Ways taken as paths

A way goes through folders only. Taken as a path it meets no link before its end, so it leads to
what stands there (`locate_of_at?`). On a disk without links all paths are like that, double dots
apart: such a path leads along its names or nowhere (`Plain.at?_of_read?`).
-/

namespace Concordance

/-- What stands in a folder of plain entries is plain and stands under a name. -/
theorem Entry.plain_of_mem {entries : List (String × Entry)} (h : allPlain entries)
    {f : String × Entry} (hf : f ∈ entries) : Path.IsName f.1 ∧ f.2.isPlain := by
  induction entries with
  | nil => cases hf
  | cons g entries ih =>
      obtain ⟨name, e⟩ := g
      simp only [allPlain, isPlainUnder, Bool.and_eq_true, decide_eq_true_eq] at h
      rcases List.mem_cons.mp hf with rfl | hf
      · exact h.1
      · exact ih h.2 hf

/-- A plain entry has names in it and no links. -/
theorem Entry.ruled_of_isPlain (e : Entry) (h : e.isPlain) :
    e.Ruled Path.IsName fun _ => False := by
  match e with
  | .file contents => exact .file contents
  | .link target => cases h
  | .folder entries =>
      refine .folder (fun f hf => (plain_of_mem h hf).1) fun f hf => ?_
      have hsize : sizeOf f.2 < sizeOf entries := by
        have hmem := List.sizeOf_lt_of_mem hf
        have hpair : sizeOf f = 1 + sizeOf f.1 + sizeOf f.2 := rfl
        omega
      exact ruled_of_isPlain f.2 (plain_of_mem h hf).2
termination_by sizeOf e

namespace Disk

variable {d : Disk}

/-- No link stands on a way before its end. -/
theorem ne_link_of_at?_append {way rest : List String} {e : Entry}
    (h : d.at? (way ++ rest) = some e) (he : ∀ target, e ≠ .link target) :
    ∀ target, d.at? way ≠ some (.link target) := by
  intro target hlink
  rw [Disk.at?, Entry.at?_append, ← Disk.at?, hlink] at h
  dsimp only at h
  split at h
  · exact he target (Option.some.inj h).symm
  · cases h

/-- A way goes through folders. -/
theorem exists_folder_of_at?_cons {way rest : List String} {name : String} {e : Entry}
    (h : d.at? (way ++ name :: rest) = some e) :
    ∃ inner, d.at? way = some (.folder inner) := by
  rw [Disk.at?, Entry.at?_append] at h
  split at h
  · next inner hway => exact ⟨inner, hway⟩
  · cases h
  · cases h

/-- Going along the rest of a way arrives at its end. -/
theorem advance_of_at? {rest : List String} (hup : ".." ∉ rest) {e : Entry}
    (he : ∀ target, e ≠ .link target) :
    ∀ {way : List String}, d.at? (way ++ rest) = some e →
      d.advance way rest = .arrived (way ++ rest) := by
  induction rest with
  | nil =>
      intro way h
      rw [advance, List.append_nil]
  | cons name rest ih =>
      intro way h
      rw [List.mem_cons, not_or] at hup
      obtain ⟨inner, hinner⟩ := exists_folder_of_at?_cons h
      rw [List.append_cons] at h ⊢
      have hnext : d.at? (way ++ [name]) = inner.lookup name := Entry.at?_concat hinner name
      have hlink := ne_link_of_at?_append h he
      rw [advance, hinner]
      dsimp only
      rw [if_neg (by simpa using Ne.symm hup.1)]
      rw [hnext] at hlink
      cases hl : inner.lookup name with
      | none =>
          rw [Disk.at?, Entry.at?_append, ← Disk.at?, hnext, hl] at h
          cases h
      | some f =>
          cases f with
          | link target => exact absurd hl (hlink target)
          | file contents => exact ih hup.2 h
          | folder entries => exact ih hup.2 h

/-- **A way leads to its end.** -/
theorem locate_of_at? {way : List String} (hup : ".." ∉ way) {e : Entry}
    (he : ∀ target, e ≠ .link target) (h : d.at? way = some e) : d.locate way = .ok way := by
  rw [locate, linkBound, follow, advance_of_at? hup he h]
  rfl

/-- Without double dots one arrives along the names that one goes by. -/
theorem eq_of_advance_arrived {names : List String} (hup : ".." ∉ names) :
    ∀ {way stop : List String}, d.advance way names = .arrived stop → stop = way ++ names := by
  induction names with
  | nil =>
      intro way stop h
      cases h
      exact (List.append_nil way).symm
  | cons name names ih =>
      intro way stop h
      rw [List.mem_cons, not_or] at hup
      rw [advance] at h
      split at h
      · rw [if_neg (by simpa using Ne.symm hup.1)] at h
        split at h
        · cases h
        · cases h
        · rw [List.append_cons]
          exact ih hup.2 h
      · cases h

/-- What is read on a plain disk stands at the end of the names of its path. -/
theorem Plain.at?_of_read? (hd : d.Plain) {names : List String} (hup : ".." ∉ names)
    {contents : Bytes} (h : d.read? names = some contents) :
    d.at? names = some (.file contents) := by
  obtain ⟨way, hway, hfile⟩ := exists_way_of_read? h
  obtain rfl : way = names := eq_of_advance_arrived hup (hd.advance_of_locate hway)
  exact hfile

/-- What is read under a name in a folder, where no link stands. -/
theorem read?_concat_iff {folder : List String} (hup : ".." ∉ folder)
    {inner : List (String × Entry)} (hfolder : d.at? folder = some (.folder inner)) {name : String}
    (hname : name ≠ "..") (hlink : ∀ target, d.at? (folder ++ [name]) ≠ some (.link target))
    {contents : Bytes} :
    d.read? (folder ++ [name]) = some contents ↔
      d.at? (folder ++ [name]) = some (.file contents) := by
  have hleads := locate_of_at? hup (by simp) hfolder
  have hnext : d.at? (folder ++ [name]) = inner.lookup name := Entry.at?_concat hfolder name
  have hlocate := locate_concat hleads hfolder hname (by rwa [hnext] at hlink)
  constructor
  · intro hread
    obtain ⟨way, hway, hfile⟩ := exists_way_of_read? hread
    rw [hlocate] at hway
    split at hway
    · cases hway
      exact hfile
    · cases hway
  · exact read?_concat hleads hname

/-- No links on a disk, and every entry under a name, those that others hide included. -/
def Linkless (d : Disk) : Prop := d.Ruled Path.IsName fun _ => False

/-- A disk whose entries all pass the check for plain ones has no links. -/
theorem linkless_of_allPlain (h : Entry.allPlain d.top) : d.Linkless :=
  Entry.ruled_of_isPlain (.folder d.top) h

/-- A disk without links is plain. -/
theorem Linkless.plain (hd : d.Linkless) : d.Plain where
  noLink _ _ hlink := (Entry.Ruled.at? hd hlink).2.target
  names hat := hd.names_of_at? hat

/-- A proper name does not go up. -/
theorem not_mem_of_names {way : List String} (h : ∀ n ∈ way, Path.IsName n) : ".." ∉ way :=
  fun hmem => (h _ hmem).2.2.1 rfl

end Disk

end Concordance
