import Concordance.Proofs.Disk.Ruled
import Mathlib.Data.List.Nodup

/-!
# No name twice

A folder lists its entries, and a name that is listed twice hides what stands under it the second time.
On a disk on which that happens nowhere (`Disk.Distinct`) an entry is the same as what stands at the
end of a way. What a project does to its disk never lists a name twice (`Distinct.save`,
`Distinct.makeLockFile`).
-/

namespace Concordance

/-- Every folder in an entry has each of its names once. -/
inductive Entry.Distinct : Entry → Prop
  | file (contents : Bytes) : Distinct (.file contents)
  | link (target : Path) : Distinct (.link target)
  | folder {entries : List (String × Entry)} (names : (entries.map Prod.fst).Nodup)
      (inner : ∀ f ∈ entries, Distinct f.2) : Distinct (.folder entries)

/-- No folder on a disk has a name twice. -/
def Disk.Distinct (d : Disk) : Prop := Entry.Distinct (.folder d.top)

namespace Entry

/-- The names in a folder are distinct. -/
theorem Distinct.names {entries : List (String × Entry)} (h : Distinct (.folder entries)) :
    (entries.map Prod.fst).Nodup := by
  cases h with
  | folder names inner => exact names

/-- So are those in the folders in it. -/
theorem Distinct.inside {entries : List (String × Entry)} (h : Distinct (.folder entries)) :
    ∀ f ∈ entries, Distinct f.2 := by
  cases h with
  | folder names inner => exact inner

/-- What stands at the end of a way has no name twice either. -/
theorem Distinct.at? {way : List String} :
    ∀ {entries : List (String × Entry)} {e : Entry}, Distinct (.folder entries) →
      Entry.at? way entries = some e → Distinct e := by
  induction way with
  | nil =>
      intro entries e h hat
      cases hat
      exact h
  | cons name way ih =>
      intro entries e h hat
      rw [Entry.at?] at hat
      split at hat
      · next inner hl => exact ih (h.inside _ (mem_of_lookup hl)) hat
      · next found _ hl =>
        split at hat
        · cases hat
          exact h.inside _ (mem_of_lookup hl)
        · cases hat
      · cases hat

/-- Putting an entry under a name lists no other name. -/
theorem map_fst_set (name : String) (e : Entry) (entries : List (String × Entry)) :
    (set name e entries).map Prod.fst =
      if name ∈ entries.map Prod.fst then entries.map Prod.fst
      else entries.map Prod.fst ++ [name] := by
  induction entries with
  | nil => rfl
  | cons f entries ih =>
      rw [set, List.map_cons]
      by_cases hname : f.1 = name
      · rw [if_pos (by simpa using hname), if_pos (by rw [hname]; exact List.mem_cons_self),
          List.map_cons, hname]
      · rw [if_neg (by simpa using hname), List.map_cons, ih]
        by_cases hmem : name ∈ entries.map Prod.fst
        · rw [if_pos hmem, if_pos (List.mem_cons_of_mem _ hmem)]
        · have hnot : name ∉ f.1 :: entries.map Prod.fst := by
            rw [List.mem_cons, not_or]
            exact ⟨Ne.symm hname, hmem⟩
          rw [if_neg hmem, if_neg hnot, List.cons_append]

/-- A folder keeps to it when something is put under a name. -/
theorem Distinct.set {entries : List (String × Entry)} (h : Distinct (.folder entries))
    {e : Entry} (he : Distinct e) (name : String) :
    Distinct (.folder (Entry.set name e entries)) := by
  refine .folder ?_ fun f hf => ?_
  · rw [map_fst_set]
    split
    · exact h.names
    · next hnot =>
      rw [← List.concat_eq_append]
      exact List.Nodup.concat hnot h.names
  · rcases mem_set hf with rfl | hf
    · exact he
    · exact h.inside f hf

/-- Putting an entry at the end of a way. -/
theorem Distinct.put? {e : Entry} (he : Distinct e) {way : List String} :
    ∀ {entries entries' : List (String × Entry)}, Distinct (.folder entries) →
      Entry.put? e way entries = some entries' → Distinct (.folder entries') := by
  induction way with
  | nil =>
      intro entries entries' h hput
      cases hput
  | cons name way ih =>
      intro entries entries' h hput
      cases way with
      | nil =>
          cases hput
          exact h.set he name
      | cons n way =>
          rw [Entry.put?] at hput
          · split at hput
            · next inner hl =>
              obtain ⟨inner', hinner', rfl⟩ := Option.map_eq_some_iff.mp hput
              exact h.set (ih (h.inside _ (mem_of_lookup hl)) hinner') name
            · cases hput
          · exact List.cons_ne_nil n way

/-- Taking an entry away. -/
theorem Distinct.remove? {way : List String} :
    ∀ {entries entries' : List (String × Entry)}, Distinct (.folder entries) →
      Entry.remove? way entries = some entries' → Distinct (.folder entries') := by
  induction way with
  | nil =>
      intro entries entries' h hremove
      cases hremove
  | cons name way ih =>
      intro entries entries' h hremove
      cases way with
      | nil =>
          rw [Entry.remove?] at hremove
          split at hremove
          · cases hremove
            exact .folder (h.names.sublist (List.filter_sublist.map _))
              fun f hf => h.inside f (List.mem_of_mem_filter hf)
          · cases hremove
      | cons n way =>
          rw [Entry.remove?] at hremove
          · split at hremove
            · next inner hl =>
              obtain ⟨inner', hinner', rfl⟩ := Option.map_eq_some_iff.mp hremove
              exact h.set (ih (h.inside _ (mem_of_lookup hl)) hinner') name
            · cases hremove
          · exact List.cons_ne_nil n way

mutual

/-- Whether no folder in an entry has a name twice. -/
def isDistinct : Entry → Bool
  | .folder entries => decide (entries.map Prod.fst).Nodup && allDistinct entries
  | _ => true

/-- Whether no folder among some entries has a name twice. -/
def allDistinct : List (String × Entry) → Bool
  | [] => true
  | f :: rest => isDistinctUnder f && allDistinct rest

/-- Whether no folder under a name has a name twice. -/
def isDistinctUnder : String × Entry → Bool
  | (_, e) => isDistinct e

end

/-- The check of a list checks each of its entries. -/
theorem isDistinct_of_mem {entries : List (String × Entry)} (h : allDistinct entries = true)
    {f : String × Entry} (hf : f ∈ entries) : f.2.isDistinct = true := by
  induction entries with
  | nil => cases hf
  | cons g entries ih =>
      obtain ⟨name, e⟩ := g
      rw [allDistinct, isDistinctUnder, Bool.and_eq_true] at h
      rcases List.mem_cons.mp hf with rfl | hf
      · exact h.1
      · exact ih h.2 hf

/-- The check is right. -/
theorem distinct_of_isDistinct (e : Entry) (h : e.isDistinct = true) : e.Distinct := by
  match e with
  | .file contents => exact .file contents
  | .link target => exact .link target
  | .folder entries =>
      rw [isDistinct, Bool.and_eq_true, decide_eq_true_eq] at h
      refine .folder h.1 fun f hf => ?_
      have hsize : sizeOf f.2 < sizeOf entries := by
        have hmem := List.sizeOf_lt_of_mem hf
        have hpair : sizeOf f = 1 + sizeOf f.1 + sizeOf f.2 := rfl
        omega
      exact distinct_of_isDistinct f.2 (isDistinct_of_mem h.2 hf)
termination_by sizeOf e

end Entry

/-! ### What a project does to its disk -/

namespace Disk

variable {d d' : Disk}

/-- Putting something somewhere keeps the names distinct. -/
theorem Distinct.put (hd : d.Distinct) {way : List String} {e : Entry} (he : e.Distinct)
    (h : d.put way e = .ok d') : d'.Distinct := by
  unfold Disk.put at h
  split at h
  · next top htop =>
    cases h
    exact he.put? hd htop
  · cases h

/-- So does taking something away. -/
theorem Distinct.without (hd : d.Distinct) (way : List String) : (d.without way).Distinct := by
  unfold Disk.without
  split
  · next top htop => exact Entry.Distinct.remove? hd htop
  · exact hd

/-- So does taking away a file. -/
theorem Distinct.withoutFile (hd : d.Distinct) (way : List String) :
    (d.withoutFile way).Distinct := by
  unfold Disk.withoutFile
  split
  · exact hd
  · exact hd.without way

/-- So does giving something another name. -/
theorem Distinct.rename (hd : d.Distinct) {folder : List String} {name newName : String}
    (h : d.rename folder name newName = .ok d') : d'.Distinct := by
  unfold Disk.rename at h
  split at h
  · cases h
  · split at h
    · next e he => exact (hd.without _).put (Entry.Distinct.at? hd he) h
    · cases h

/-- So does writing a file. -/
theorem Distinct.write (hd : d.Distinct) {names : List String} {contents : Bytes}
    (h : d.write names contents = .ok d') : d'.Distinct := by
  unfold Disk.write at h
  obtain ⟨way, -, hput⟩ := Attempt.exists_of_bind_eq_ok h
  exact hd.put (.file contents) hput

/-- Making folders along a path. -/
theorem Distinct.makeFoldersFrom {names : List String} :
    ∀ {d d' : Disk} {done : List String}, d.Distinct → d.makeFoldersFrom done names = .ok d' →
      d'.Distinct := by
  induction names with
  | nil =>
      intro d d' done hd h
      cases h
      exact hd
  | cons name names ih =>
      intro d d' done hd h
      rw [Disk.makeFoldersFrom] at h
      split at h
      · split at h
        · exact ih hd h
        · cases h
      · obtain ⟨folder, -, h⟩ := Attempt.exists_of_bind_eq_ok h
        split at h
        · cases h
        · obtain ⟨made, hput, h⟩ := Attempt.exists_of_bind_eq_ok h
          have hempty : Entry.Distinct (.folder []) := .folder List.nodup_nil (by simp)
          exact ih (hd.put hempty hput) h
      · cases h

/-- **Making the file of a lock.** -/
theorem Distinct.makeLockFile (hd : d.Distinct) {file : Path}
    (h : Host.makeLockFile d file = .ok d') : d'.Distinct := by
  rw [Host.makeLockFile] at h
  obtain ⟨made, hmade, h⟩ := Attempt.exists_of_bind_eq_ok h
  have hdistinct := Distinct.makeFoldersFrom hd hmade
  split at h
  · cases h
    exact hdistinct
  · exact hdistinct.write h

/-- Writing by a draft, whether it succeeds or not. -/
theorem Distinct.writeByDraft (hd : d.Distinct) (folder : List String) (draft file : Path)
    (contents : Bytes) : (d.writeByDraft folder draft file contents).1.Distinct := by
  unfold Disk.writeByDraft
  split
  · exact hd.withoutFile _
  · next written hwrite =>
    split
    · next moved hmoved => exact (hd.write hwrite).rename hmoved
    · exact (hd.write hwrite).withoutFile _

/-- **Storing an index**, whether it succeeds or not. -/
theorem Distinct.save (hd : d.Distinct) (file : Path) (index : ProjectIndex) :
    (index.save d file).1.Distinct := by
  unfold ProjectIndex.save
  split
  · exact hd
  · next made hmade =>
    have hdistinct := Distinct.makeFoldersFrom hd hmade
    split
    · exact hdistinct
    · exact hdistinct.writeByDraft _ _ _ _

end Disk

end Concordance
