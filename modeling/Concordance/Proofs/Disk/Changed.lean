import Concordance.Proofs.Chars.Utf8
import Concordance.Proofs.Disk.Straight

/-!
# Changes in several places

What a project does to its disk, once the folder of its index is there, comes down to changes in
three single places of that folder: the index, its draft, and the lock file (`Disk.placesOf`). Storing
the index is a chain of such changes, whether it succeeds or not (`Seat.changed_save`), and so is
making the lock file, which can always be made anew (`Ready.makeLockFile`).

Whatever stands elsewhere stays what it is (`Changed.alike`), and all that is written is text
(`Changed.decodes`).
-/

namespace Concordance

/-- An entry can be put under any name in a folder. -/
theorem Entry.exists_put? (e : Entry) (name : String) {folder : List String} :
    ∀ {entries inner : List (String × Entry)}, at? folder entries = some (.folder inner) →
      ∃ entries', put? e (folder ++ [name]) entries = some entries' := by
  induction folder with
  | nil =>
      intro entries inner h
      exact ⟨set name e entries, rfl⟩
  | cons n folder ih =>
      intro entries inner h
      rw [at?] at h
      split at h
      · next found hl =>
        obtain ⟨found', hfound'⟩ := ih h
        refine ⟨set n (.folder found') entries, ?_⟩
        rw [List.cons_append, put?, hl]
        · dsimp only
          rw [hfound', Option.map_some]
        · simp
      · next found hne hl =>
        split at h
        · exact absurd (Option.some.inj h) (hne inner)
        · cases h
      · cases h

namespace Disk

variable {d d' d'' : Disk} {places : List (List String)} {file : Path} {folder : List String}

/-- Something can be put into every folder that is there. -/
theorem exists_put {inner : List (String × Entry)} (h : d.at? folder = some (.folder inner))
    (name : String) (e : Entry) : ∃ d', d.put (folder ++ [name]) e = .ok d' := by
  obtain ⟨top, htop⟩ := Entry.exists_put? e name h
  refine ⟨⟨top⟩, ?_⟩
  rw [put, htop]

/-- Nothing stands in a place, or a file with a text in it. -/
def IsText (x : Option Entry) : Prop :=
  ∀ contents, x = some (.file contents) → ∃ text, contents = Utf8.encode text

theorem isText_none : IsText none := fun _ h => by cases h

/-- The bytes of a text are a text. -/
theorem isText_bytes (text : String) : IsText (some (.file (Utf8.bytes text))) := by
  intro contents h
  cases h
  exact ⟨text.toList, rfl⟩

/-- One disk becomes another by changes, each of them in one of some places, where it leaves a text
or nothing. -/
inductive Changed (places : List (List String)) : Disk → Disk → Prop
  | refl (d : Disk) : Changed places d d
  | tail {d d' d'' : Disk} {way : List String} (h : Changed places d d') (hway : way ∈ places)
      (hat : ChangedAt way d' d'') (htext : IsText (d''.at? way)) : Changed places d d''

/-- A change in one of the places that leaves text there. -/
theorem ChangedAt.changed {way : List String} (h : ChangedAt way d d') (hway : way ∈ places)
    (htext : IsText (d'.at? way)) : Changed places d d' :=
  .tail (.refl d) hway h htext

/-- Two changes in the same places are one. -/
theorem Changed.trans (h : Changed places d d') (h' : Changed places d' d'') :
    Changed places d d'' := by
  induction h' with
  | refl => exact h
  | tail _ hway hat htext ih => exact .tail ih hway hat htext

/-- **All else stays what it is.** -/
theorem Changed.alike (h : Changed places d d') {w : List String} (hw : w ∉ places) :
    Option.Rel Entry.Alike (d.at? w) (d'.at? w) := by
  induction h with
  | refl => exact Entry.rel_alike_refl _
  | tail _ hway hat _ ih =>
      have hne : w ≠ _ := fun heq => hw (heq ▸ hway)
      exact Entry.rel_alike_trans ih (hat.alike w hne)

/-- A file elsewhere stays as it is. -/
theorem Changed.at?_file (h : Changed places d d') {w : List String} (hw : w ∉ places)
    {contents : Bytes} (hfile : d.at? w = some (.file contents)) :
    d'.at? w = some (.file contents) := by
  have hrel := h.alike hw
  rw [hfile] at hrel
  exact Entry.eq_file_of_rel (Entry.rel_alike_symm hrel)

/-- Folders stay where they are, and no other ones come. -/
theorem Changed.exists_folder_iff (h : Changed places d d') {w : List String} :
    (∃ inner, d.at? w = some (.folder inner)) ↔ ∃ inner, d'.at? w = some (.folder inner) := by
  induction h with
  | refl => exact Iff.rfl
  | tail _ _ hat _ ih =>
      exact ih.trans ⟨fun h => (hat.exists_folder h).2, fun h => (hat.symm.exists_folder h).2⟩

/-- **Paths that lead elsewhere** lead there before and after. -/
theorem Changed.locate_iff (h : Changed places d d') {names stop : List String}
    (hstop : stop ∉ places) : d.locate names = .ok stop ↔ d'.locate names = .ok stop := by
  induction h with
  | refl => exact Iff.rfl
  | tail _ hway hat _ ih =>
      have hne : stop ≠ _ := fun heq => hstop (heq ▸ hway)
      exact ih.trans ⟨fun h => hat.locate h hne, fun h => hat.symm.locate h hne⟩

/-- A change makes no links. -/
theorem Changed.ne_link (h : Changed places d d') {w : List String}
    (hlink : ∀ target, d.at? w ≠ some (.link target)) :
    ∀ target, d'.at? w ≠ some (.link target) := by
  induction h with
  | refl => exact hlink
  | tail _ _ hat _ ih => exact hat.ne_link ih

/-- An end of paths is one after the change. -/
theorem Changed.isEnd (h : Changed places d d') {w : List String}
    (hend : Entry.IsEnd (d.at? w)) : Entry.IsEnd (d'.at? w) := by
  induction h with
  | refl => exact hend
  | @tail _ _ way _ _ hat _ ih =>
      by_cases hw : w = way
      · rw [hw]
        exact hat.isEnd'
      · exact ih.of_rel (hat.alike w hw)

/-- A file keeps its seat. -/
theorem Changed.seat (h : Changed places d d') (hs : d.Seat file folder) :
    d'.Seat file folder := by
  induction h with
  | refl => exact hs
  | tail _ _ hat _ ih => exact ih.changedAt hat

/-- A file that stands after some changes stood there before, or it is a text. -/
theorem Changed.old_or_text (h : Changed places d d') {w : List String} {contents : Bytes}
    (hfile : d'.at? w = some (.file contents)) :
    d.at? w = some (.file contents) ∨ ∃ text, contents = Utf8.encode text := by
  induction h with
  | refl => exact .inl hfile
  | @tail _ _ way _ _ hat htext ih =>
      by_cases hw : w = way
      · subst hw
        exact .inr (htext contents hfile)
      · apply ih
        have hrel := hat.alike w hw
        rw [hfile] at hrel
        generalize Disk.at? _ w = x at hrel
        cases hrel with
        | some halike =>
            cases halike
            rfl

/-- **What is read as a text stays one**: in a folder, under a name where no link stands. -/
theorem Changed.decodes (h : Changed places d d') (hup : ".." ∉ folder)
    (hfolder : ∃ inner, d.at? folder = some (.folder inner)) {name : String} (hname : name ≠ "..")
    (hlink : ∀ target, d.at? (folder ++ [name]) ≠ some (.link target))
    (hd : ∀ contents, d.read? (folder ++ [name]) = some contents →
      (Utf8.decode? contents).isSome) :
    ∀ contents, d'.read? (folder ++ [name]) = some contents → (Utf8.decode? contents).isSome := by
  intro contents hread
  obtain ⟨inner, hinner⟩ := hfolder
  obtain ⟨inner', hinner'⟩ := h.exists_folder_iff.mp ⟨inner, hinner⟩
  rw [read?_concat_iff hup hinner' hname (h.ne_link hlink)] at hread
  rcases h.old_or_text hread with hold | ⟨text, rfl⟩
  · exact hd contents ((read?_concat_iff hup hinner hname hlink).mpr hold)
  · rw [Utf8.decode?_encode]
    rfl

/-! ### The places of an index -/

/-- The places that a project changes in the folder of its index. -/
def placesOf (file : Path) (folder : List String) : List (List String) :=
  [folder ++ [file.name], folder ++ [(ProjectIndex.draftOf file).name],
    folder ++ [(lockFile file).name]]

/-- The places of an index are those of its file, its draft and its lock file. -/
theorem mem_placesOf {w : List String} :
    w ∈ placesOf file folder ↔ w = folder ++ [file.name] ∨
      w = folder ++ [(ProjectIndex.draftOf file).name] ∨ w = folder ++ [(lockFile file).name] := by
  simp [placesOf]

/-- Taking a draft away changes its place at most. -/
theorem Seat.changed_withoutFile (hs : d.Seat file folder) :
    Changed (placesOf file folder) d
      (d.withoutFile (folder ++ [(ProjectIndex.draftOf file).name])) := by
  unfold withoutFile
  split
  · exact .refl d
  · next hfolder =>
    have hend := isEnd_of_not hs.undrafted (by simpa using hfolder)
    obtain ⟨hchanged, hgone⟩ := changedAt_without hend
    exact hchanged.changed (mem_placesOf.mpr (.inr (.inl rfl))) (hgone (by simp) ▸ isText_none)

/-- **What storing an index changes**, whether it succeeds or not. -/
theorem Seat.changed_save (hs : d.Seat file folder) (index : ProjectIndex) :
    Changed (placesOf file folder) d (index.save d file).1 := by
  have hdraft : folder ++ [(ProjectIndex.draftOf file).name] ∈ placesOf file folder :=
    mem_placesOf.mpr (.inr (.inl rfl))
  cases hsaved : (index.save d file).2 with
  | true =>
      obtain ⟨mid, hmid, hgone, hlast, hfile⟩ := hs.of_save hsaved
      exact (hmid.changed hdraft (hgone ▸ isText_none)).tail (mem_placesOf.mpr (.inl rfl)) hlast
        (hfile ▸ isText_bytes _)
  | false =>
      have hsave : index.save d file =
          d.writeByDraft folder (ProjectIndex.draftOf file) file (Utf8.bytes index.stored) := by
        rw [ProjectIndex.save, hs.makeFolders]
        dsimp only
        rw [hs.leads]
      rw [hsave] at hsaved ⊢
      unfold writeByDraft at hsaved ⊢
      split
      · exact hs.changed_withoutFile
      · next written hwrite =>
        obtain ⟨hend, hput⟩ := hs.of_write hwrite
        have hwritten := (changedAt_put hend hput).changed hdraft
          (at?_of_put hput ▸ isText_bytes _)
        rw [hwrite] at hsaved
        dsimp only at hsaved
        split
        · next moved hmoved =>
          rw [hmoved] at hsaved
          cases hsaved
        · exact hwritten.trans (hwritten.seat hs).changed_withoutFile

/-- The path of a lock file beside an index. -/
theorem parts_lockFile (file : Path) :
    (lockFile file).parts = file.parent.parts ++ [(lockFile file).name] :=
  Path.parts_withSuffix file ".lock"

/-- The name of a lock file does not go up. -/
theorem name_lockFile_ne_up (file : Path) : (lockFile file).name ≠ ".." := by
  rw [lockFile, Path.name_withSuffix]
  intro h
  have hlength := congrArg (fun s => s.toList.length) h
  simp at hlength

/-- A file has its seat in a folder, and there is room for the lock file beside it. -/
structure Ready (d : Disk) (file : Path) (folder : List String) : Prop
    extends Seat d file folder where
  lockable : Entry.IsEnd (d.at? (folder ++ [(lockFile file).name]))

/-- An index that can be saved can be saved after the change. -/
theorem Changed.ready (h : Changed places d d') (hd : d.Ready file folder) :
    d'.Ready file folder where
  toSeat := h.seat hd.toSeat
  lockable := h.isEnd hd.lockable

/-- No link stands in the places of an index. -/
theorem Ready.ne_link (hd : d.Ready file folder) {place : List String}
    (hplace : place ∈ placesOf file folder) : ∀ target, d.at? place ≠ some (.link target) := by
  rcases mem_placesOf.mp hplace with rfl | rfl | rfl
  · exact hd.unlinked
  · exact hd.undrafted
  · intro target hlink
    have hend := hd.lockable
    rw [hlink] at hend
    cases hend

/-- **The lock file can be made**, and that changes its place at most. -/
theorem Ready.makeLockFile (hd : d.Ready file folder) :
    ∃ d', Host.makeLockFile d (lockFile file) = .ok d' ∧
      Changed (placesOf file folder) d d' := by
  obtain ⟨inner, hinner⟩ := hd.isFolder
  have hmade : d.makeFolders (lockFile file).parent.parts = .ok d := by
    rw [lockFile, Path.parent_withSuffix]
    exact hd.makeFolders
  rw [Host.makeLockFile, hmade, Attempt.ok_bind]
  split
  · exact ⟨d, rfl, .refl d⟩
  · obtain ⟨d', hput⟩ := exists_put hinner (lockFile file).name (.file [])
    refine ⟨d', ?_, (changedAt_put hd.lockable hput).changed (mem_placesOf.mpr (.inr (.inr rfl)))
      (at?_of_put hput ▸ isText_bytes "")⟩
    rw [parts_lockFile, write_concat hd.leads hinner (name_lockFile_ne_up file) hd.lockable, hput]

/-- Once the folder was made and the lock file in it, all is ready for the lock. -/
theorem Plain.ready_of_makeLockFile (hd : d.Plain) (hmade : d.LeadsToFolder file.parent.parts)
    (h : Host.makeLockFile d (lockFile file) = .ok d') : ∃ folder, d'.Ready file folder := by
  obtain ⟨folder, inner, hfolder, hinner⟩ := hmade
  have hseat := hd.seat hfolder hinner
  have hup := name_lockFile_ne_up file
  rw [Host.makeLockFile, lockFile, Path.parent_withSuffix, ← lockFile, hseat.makeFolders,
    Attempt.ok_bind, parts_lockFile] at h
  refine ⟨folder, ?_⟩
  split at h
  · next contents hentry =>
    obtain rfl : d = d' := Except.ok.inj h
    refine ⟨hseat, ?_⟩
    have hread : d.read? (file.parent.parts ++ [(lockFile file).name]) = some contents := by
      rw [read?, hentry]
    obtain ⟨way, hway, hfile⟩ := exists_way_of_read? hread
    rw [locate_concat hfolder hinner hup (hd.lookup_ne_link hinner _)] at hway
    split at hway
    · cases hway
      rw [hfile]
      exact .file contents
    · cases hway
  · have hfree : d.hasFolder (folder ++ [(lockFile file).name]) = false := by
      apply Bool.eq_false_iff.mpr
      intro hhas
      rw [write_concat_folder hfolder hup hhas] at h
      cases h
    have hready : d.Ready file folder := ⟨hseat, isEnd_of_not (hd.noLink _) hfree⟩
    rw [write_concat hfolder hinner hup hready.lockable] at h
    have hchanged : Changed (placesOf file folder) d d' :=
      (changedAt_put hready.lockable h).changed (mem_placesOf.mpr (.inr (.inr rfl)))
        (at?_of_put h ▸ isText_bytes "")
    exact hchanged.ready hready

/-- **Where a lock file was made** on a disk without links, there are none, and all is ready for the
lock to be taken again. -/
theorem Linkless.ready_of_makeLockFile (hd : d.Linkless) (hfile : Brings Path.IsName file.parts)
    (h : Host.makeLockFile d (lockFile file) = .ok d') :
    d'.Linkless ∧ ∃ folder, d'.Ready file folder := by
  have hslash : '/' ∉ file.name.toList := by
    rw [Path.name]
    cases hlast : file.parts.getLast? with
    | none => decide
    | some name =>
        rw [Option.getD_some]
        by_cases hup : name = ".."
        · rw [hup]
          decide
        · exact (hfile name (List.mem_of_getLast? hlast) hup).2.2.2
  have hlock : Brings Path.IsName (lockFile file).parts :=
    brings_withSuffix hfile (Path.isName_withSuffix hslash (by decide) (by decide))
  refine ⟨hd.makeLockFile (fun h => h.elim) hlock h, ?_⟩
  have hparent : Brings Path.IsName file.parent.parts :=
    fun n hn => hfile n (List.dropLast_subset _ hn)
  have hmake := h
  rw [Host.makeLockFile, lockFile, Path.parent_withSuffix, ← lockFile] at hmake
  obtain ⟨made, hmade, hrest⟩ := Attempt.exists_of_bind_eq_ok hmake
  have hleads := leadsToFolder_makeFolders hmade
  have hplain : made.Plain := Linkless.plain (hd.makeFolders hparent hmade)
  apply hplain.ready_of_makeLockFile hleads
  rw [Host.makeLockFile, lockFile, Path.parent_withSuffix, ← lockFile,
    makeFolders_of_leadsToFolder hleads, Attempt.ok_bind]
  exact hrest

end Disk

end Concordance
