import Concordance.Proofs.Disk.Folders
import Mathlib.Data.List.TakeWhile

/-!
# The seat of a stored file

A file that is written by a draft has its seat in a folder: the place of the file and the place of
its draft. As long as no link stands in either of them (`Disk.Seat`), a save that succeeds changes
these two places and no other (`Disk.Seat.of_save`), and the file is read back through its path
(`Disk.Seat.read?_save`). Changes in single places keep the seat (`Disk.Seat.changedAt`).
-/

namespace Concordance

namespace Path

/-- A name has no suffix, or its suffix starts at the last dot. -/
theorem splitSuffix_cases (name : String) :
    splitSuffix name = (name, "") ∨
      ∃ stem ending : List Char, '.' ∉ ending ∧ name.toList = stem ++ '.' :: ending ∧
        splitSuffix name = (.ofList stem, .ofList ('.' :: ending)) := by
  unfold splitSuffix
  dsimp only
  split
  · exact Or.inl rfl
  · next hsplit =>
    right
    simp only [Bool.or_eq_true, List.isEmpty_iff, not_or] at hsplit
    obtain ⟨-, hstem⟩ := hsplit
    generalize name.toList = cs at hstem ⊢
    have hparts := List.takeWhile_append_dropWhile (p := (· != '.')) (l := cs.reverse)
    have hending : '.' ∉ cs.reverse.takeWhile (· != '.') := by
      intro hmem
      simpa using List.mem_takeWhile_imp hmem
    generalize cs.reverse.takeWhile (· != '.') = ending at hparts hending hstem ⊢
    cases hdrop : cs.reverse.dropWhile (· != '.') with
    | nil =>
        rw [hdrop, List.append_nil] at hparts
        have hlength : cs.length = ending.length := by rw [hparts, List.length_reverse]
        exact absurd (by rw [hlength]; simp) hstem
    | cons c before =>
        have hc : c = '.' := by
          have hhead := List.head_dropWhile_not (· != '.') (l := cs.reverse) (by simp [hdrop])
          simpa [hdrop] using hhead
        subst hc
        rw [hdrop] at hparts
        have hcs : cs = before.reverse ++ '.' :: ending.reverse := by
          rw [← List.reverse_reverse cs, ← hparts]
          simp
        have hlength : cs.length - ending.length - 1 = before.reverse.length := by
          rw [hcs]
          simp
          omega
        refine ⟨before.reverse, ending.reverse, by simpa using hending, hcs, ?_⟩
        rw [hlength, hcs, List.take_left, List.drop_left]

/-- A path with another suffix lies in the same folder. -/
theorem parts_withSuffix (file : Path) (suffix : String) :
    (file.withSuffix suffix).parts =
      file.parent.parts ++ [(file.withSuffix suffix).name] := by
  simp [withSuffix, parent, name]

/-- Another suffix leaves a file in its folder. -/
theorem parent_withSuffix (file : Path) (suffix : String) :
    (file.withSuffix suffix).parent.parts = file.parent.parts := by
  simp [withSuffix, parent]

/-- It changes the end of the name. -/
theorem name_withSuffix (file : Path) (suffix : String) :
    (file.withSuffix suffix).name = file.stem ++ suffix := by
  simp [withSuffix, name]

/-- With a suffix of some length, and no slash in it or before it, a file has a name. -/
theorem isName_withSuffix {file : Path} (hslash : '/' ∉ file.name.toList) {suffix : String}
    (hlong : 2 < suffix.toList.length) (hsuffix : '/' ∉ suffix.toList) :
    IsName (file.withSuffix suffix).name := by
  have hstem : '/' ∉ file.stem.toList := by
    rw [stem]
    rcases splitSuffix_cases file.name with hwhole | ⟨stem, ending, -, hname, hsplit⟩
    · rw [hwhole]
      exact hslash
    · rw [hsplit, String.toList_ofList]
      exact fun hmem => hslash (by rw [hname]; exact List.mem_append_left _ hmem)
  have hother : ∀ s : String, s.toList.length ≤ 2 → file.stem ++ suffix ≠ s := by
    rintro s hs rfl
    rw [String.toList_append, List.length_append] at hs
    omega
  rw [name_withSuffix]
  refine ⟨hother _ (by decide), hother _ (by decide), hother _ (by decide), ?_⟩
  rw [String.toList_append, List.mem_append, not_or]
  exact ⟨hstem, hsuffix⟩

/-- A path with names is that of its folder with the last name. -/
theorem parts_eq {file : Path} (h : file.parts ≠ []) :
    file.parent.parts ++ [file.name] = file.parts := by
  rw [parent, name, List.getLast?_eq_some_getLast h]
  exact List.dropLast_append_getLast h

end Path

namespace ProjectIndex

/-- The name of a draft does not go up. -/
theorem name_draftOf_ne_up (file : Path) : (draftOf file).name ≠ ".." := by
  rw [draftOf, Path.name_withSuffix]
  intro h
  have hlength := congrArg (fun s => s.toList.length) h
  simp at hlength

/-- A draft has another name than its file. -/
theorem name_draftOf_ne (file : Path) : (draftOf file).name ≠ file.name := by
  rw [draftOf, Path.name_withSuffix, Path.stem]
  intro h
  have hchars := congrArg String.toList h
  rw [String.toList_append] at hchars
  rcases Path.splitSuffix_cases file.name with hwhole | ⟨stem, ending, hdot, hname, hsplit⟩
  · rw [hwhole] at hchars
    have hlength := congrArg List.length hchars
    simp at hlength
  · rw [hsplit, hname, String.toList_ofList] at hchars
    have hrest := List.append_cancel_left hchars
    rw [show ".json.tmp".toList = '.' :: ['j', 's', 'o', 'n', '.', 't', 'm', 'p'] by decide,
      List.cons.injEq] at hrest
    rw [← hrest.2] at hdot
    exact hdot (by decide)

/-- The draft of a file with a name has a name. -/
theorem isName_draftOf {file : Path} (h : Path.IsName file.name) :
    Path.IsName (draftOf file).name :=
  Path.isName_withSuffix h.2.2.2 (by decide) (by decide)

end ProjectIndex

namespace Disk

/-- The folder that the path of a file leads to, with no link in the place of the file or of its
draft. -/
structure Seat (d : Disk) (file : Path) (folder : List String) : Prop where
  leads : d.locate file.parent.parts = .ok folder
  isFolder : ∃ inner, d.at? folder = some (.folder inner)
  unlinked : ∀ target, d.at? (folder ++ [file.name]) ≠ some (.link target)
  undrafted : ∀ target, d.at? (folder ++ [(ProjectIndex.draftOf file).name]) ≠ some (.link target)

/-- Two changes in one place are one. -/
theorem ChangedAt.trans {way : List String} {d d' d'' : Disk} (h : ChangedAt way d d')
    (h' : ChangedAt way d' d'') : ChangedAt way d d'' :=
  ⟨fun w hw => Entry.rel_alike_trans (h.alike w hw) (h'.alike w hw), h.isEnd, h'.isEnd'⟩

/-- A folder stays a folder. -/
theorem ChangedAt.exists_folder {way folder : List String} {d d' : Disk} (h : ChangedAt way d d')
    (hfolder : ∃ inner, d.at? folder = some (.folder inner)) :
    folder ≠ way ∧ ∃ inner, d'.at? folder = some (.folder inner) := by
  obtain ⟨inner, hinner⟩ := hfolder
  have hne : folder ≠ way := by
    rintro rfl
    have hend := h.isEnd
    rw [hinner] at hend
    cases hend
  have hrel := h.alike folder hne
  rw [hinner] at hrel
  generalize d'.at? folder = x at hrel
  cases hrel with
  | some halike =>
      cases halike with
      | folder _ inner' => exact ⟨hne, inner', rfl⟩

/-- A change in one place makes no links. -/
theorem ChangedAt.ne_link {way w : List String} {d d' : Disk} (h : ChangedAt way d d')
    (hlink : ∀ target, d.at? w ≠ some (.link target)) :
    ∀ target, d'.at? w ≠ some (.link target) := by
  intro target hlink'
  by_cases hw : w = way
  · subst hw
    have hend := h.isEnd'
    rw [hlink'] at hend
    cases hend
  · have hrel := h.alike w hw
    rw [hlink'] at hrel
    generalize hx : d.at? w = x at hrel
    cases hrel with
    | some halike =>
        cases halike
        exact hlink target hx

/-- A folder with a seat has been made. -/
theorem Seat.makeFolders {d : Disk} {file : Path} {folder : List String}
    (hs : d.Seat file folder) : d.makeFolders file.parent.parts = .ok d := by
  obtain ⟨inner, hinner⟩ := hs.isFolder
  exact makeFolders_of_leadsToFolder ⟨folder, inner, hs.leads, hinner⟩

/-- **Changes in single places keep the seat of a file.** -/
theorem Seat.changedAt {d d' : Disk} {file : Path} {folder way : List String}
    (hs : d.Seat file folder) (h : ChangedAt way d d') : d'.Seat file folder := by
  obtain ⟨hne, hfolder⟩ := h.exists_folder hs.isFolder
  exact ⟨h.locate hs.leads hne, hfolder, h.ne_link hs.unlinked, h.ne_link hs.undrafted⟩

/-- What is neither a link nor a folder is an end. -/
theorem isEnd_of_not {d : Disk} {way : List String}
    (hlink : ∀ target, d.at? way ≠ some (.link target)) (hfolder : d.hasFolder way = false) :
    Entry.IsEnd (d.at? way) := by
  unfold hasFolder at hfolder
  cases hat : d.at? way with
  | none => exact .missing
  | some e =>
      rw [hat] at hfolder
      cases e with
      | file contents => exact .file contents
      | link target => exact absurd hat (hlink target)
      | folder inner => cases hfolder

/-- A folder cannot be written as a file. -/
theorem write_concat_folder {d : Disk} {names folder : List String}
    (h : d.locate names = .ok folder) {name : String} (hname : name ≠ "..")
    (hfolder : d.hasFolder (folder ++ [name]) = true) (contents : Bytes) :
    d.write (names ++ [name]) contents = .error .isFolder := by
  obtain ⟨inside, hinside⟩ : ∃ inside, d.at? (folder ++ [name]) = some (.folder inside) := by
    unfold hasFolder at hfolder
    split at hfolder
    · next inside hinside => exact ⟨inside, hinside⟩
    · cases hfolder
  obtain ⟨inner, hinner⟩ := Entry.exists_folder_of_concat hinside
  have hlookup : inner.lookup name = some (.folder inside) :=
    (Entry.at?_concat hinner name).symm.trans hinside
  have hstep : d.advance folder [name] = .arrived (folder ++ [name]) := by
    have hinner : d.at? folder = some (.folder inner) := hinner
    rw [advance, hinner]
    dsimp only
    rw [if_neg (by simpa using hname), hlookup]
    rfl
  obtain ⟨left, hgo⟩ := exists_writeWay_append h
  rw [write, hgo [name] (by simp), writeWay, hstep]
  dsimp only
  rw [hinside]
  rfl

/-- A draft that can be written is written in its own place, where nothing or a file stood. -/
theorem Seat.of_write {d d' : Disk} {file : Path} {folder : List String} {contents : Bytes}
    (hs : d.Seat file folder)
    (h : d.write (ProjectIndex.draftOf file).parts contents = .ok d') :
    Entry.IsEnd (d.at? (folder ++ [(ProjectIndex.draftOf file).name])) ∧
      d.put (folder ++ [(ProjectIndex.draftOf file).name]) (.file contents) = .ok d' := by
  have hup := ProjectIndex.name_draftOf_ne_up file
  have hparts : (ProjectIndex.draftOf file).parts =
      file.parent.parts ++ [(ProjectIndex.draftOf file).name] :=
    Path.parts_withSuffix file ".json.tmp"
  rw [hparts] at h
  have hfolder : d.hasFolder (folder ++ [(ProjectIndex.draftOf file).name]) = false := by
    by_contra hfolder
    rw [Bool.not_eq_false] at hfolder
    rw [write_concat_folder hs.leads hup hfolder] at h
    cases h
  have hend := isEnd_of_not hs.undrafted hfolder
  obtain ⟨inner, hinner⟩ := hs.isFolder
  rw [write_concat hs.leads hinner hup hend] at h
  exact ⟨hend, h⟩

/-- Taking away what stands at an end is a change in one place. -/
theorem changedAt_without {d : Disk} {way : List String} (hend : Entry.IsEnd (d.at? way)) :
    ChangedAt way d (d.without way) ∧ (way ≠ [] → (d.without way).at? way = none) := by
  unfold without
  split
  · next top htop =>
    have hgone : (⟨top⟩ : Disk).at? way = none := Entry.at?_remove?_self htop
    refine ⟨⟨fun w hw => ?_, hend, hgone ▸ .missing⟩, fun _ => hgone⟩
    by_cases hpre : way <+: w
    · obtain ⟨rest, rfl⟩ := hpre
      have hrest : rest ≠ [] := by rintro rfl; exact hw (List.append_nil way)
      have hbelow : d.at? (way ++ rest) = none := hend.at?_append hrest
      have hbelow' : (⟨top⟩ : Disk).at? (way ++ rest) = none := by
        have hend' : Entry.IsEnd ((⟨top⟩ : Disk).at? way) := hgone ▸ .missing
        exact hend'.at?_append hrest
      rw [hbelow, hbelow']
      exact .none
    · exact Entry.rel_at?_remove? htop hpre
  · next hnone =>
    refine ⟨⟨fun w _ => Entry.rel_alike_refl _, hend, hend⟩, fun hne => ?_⟩
    exact Entry.at?_of_remove?_eq_none hne hnone

/-- **What a save changes.** A save that succeeds takes the draft out of its place and puts the text
of the index in the place of the file. -/
theorem Seat.of_save {d : Disk} {file : Path} {folder : List String} (hs : d.Seat file folder)
    {index : ProjectIndex} (hsaved : (index.save d file).2 = true) :
    ∃ mid, ChangedAt (folder ++ [(ProjectIndex.draftOf file).name]) d mid ∧
      mid.at? (folder ++ [(ProjectIndex.draftOf file).name]) = none ∧
      ChangedAt (folder ++ [file.name]) mid (index.save d file).1 ∧
      (index.save d file).1.at? (folder ++ [file.name]) =
        some (.file (Utf8.bytes index.stored)) := by
  have hsave : index.save d file =
      d.writeByDraft folder (ProjectIndex.draftOf file) file (Utf8.bytes index.stored) := by
    rw [ProjectIndex.save, hs.makeFolders]
    dsimp only
    rw [hs.leads]
  rw [hsave] at hsaved ⊢
  unfold writeByDraft at hsaved ⊢
  cases hwrite : d.write (ProjectIndex.draftOf file).parts (Utf8.bytes index.stored) with
  | error f => rw [hwrite] at hsaved; cases hsaved
  | ok written =>
      rw [hwrite] at hsaved
      dsimp only at hsaved ⊢
      obtain ⟨hend, hput⟩ := hs.of_write hwrite
      have hdraft := at?_of_put hput
      have hchanged := changedAt_put hend hput
      have hseat := hs.changedAt hchanged
      obtain ⟨hremoved, hgone⟩ := changedAt_without hchanged.isEnd'
      cases hrename : written.rename folder (ProjectIndex.draftOf file).name file.name with
      | error f => rw [hrename] at hsaved; cases hsaved
      | ok moved =>
          dsimp only
          unfold rename at hrename
          split at hrename
          · cases hrename
          · next hfolder =>
            rw [hdraft] at hrename
            dsimp only at hrename
            have hne : folder ++ [file.name] ≠ folder ++ [(ProjectIndex.draftOf file).name] := by
              simpa using (ProjectIndex.name_draftOf_ne file).symm
            have hfree := isEnd_of_not hseat.unlinked (by simpa using hfolder)
            have hfile := hfree.of_rel (hremoved.alike _ hne)
            exact ⟨_, hchanged.trans hremoved, hgone (by simp), changedAt_put hfile hrename,
              at?_of_put hrename⟩

/-- **What was saved is read through the path of the file.** -/
theorem Seat.read?_save {d : Disk} {file : Path} {folder : List String} (hs : d.Seat file folder)
    (hparts : file.parts ≠ []) (hname : file.name ≠ "..") {index : ProjectIndex}
    (hsaved : (index.save d file).2 = true) :
    (index.save d file).1.Seat file folder ∧
      (index.save d file).1.read? file.parts = some (Utf8.bytes index.stored) := by
  obtain ⟨mid, hdraft, -, hfile, hat⟩ := hs.of_save hsaved
  have hseat := (hs.changedAt hdraft).changedAt hfile
  refine ⟨hseat, ?_⟩
  rw [← Path.parts_eq hparts]
  exact read?_concat hseat.leads hname hat

/-- A save makes the folder that is missing first. -/
theorem exists_save_eq {d : Disk} {file : Path} {index : ProjectIndex}
    (hsaved : (index.save d file).2 = true) :
    ∃ made, d.makeFolders file.parent.parts = .ok made ∧
      index.save d file = index.save made file := by
  cases hmade : d.makeFolders file.parent.parts with
  | error f =>
      unfold ProjectIndex.save at hsaved
      rw [hmade] at hsaved
      cases hsaved
  | ok made =>
      refine ⟨made, rfl, ?_⟩
      rw [ProjectIndex.save, ProjectIndex.save, hmade,
        makeFolders_of_leadsToFolder (leadsToFolder_makeFolders hmade)]

/-- On a plain disk a path that leads to a folder gives every file in it its seat. -/
theorem Plain.seat {d : Disk} (hd : d.Plain) {file : Path} {folder : List String}
    {inner : List (String × Entry)} (h : d.locate file.parent.parts = .ok folder)
    (hinner : d.at? folder = some (.folder inner)) : d.Seat file folder :=
  ⟨h, ⟨inner, hinner⟩, hd.noLink _, hd.noLink _⟩

/-- Writing by a draft keeps a disk plain, whether it succeeds or not. -/
theorem Plain.writeByDraft {d : Disk} (hd : d.Plain) {file : Path} {folder : List String}
    (hs : d.Seat file folder) (hfile : ∀ n ∈ file.parts, Path.IsName n) (hne : file.parts ≠ [])
    (contents : Bytes) :
    (d.writeByDraft folder (ProjectIndex.draftOf file) file contents).1.Plain := by
  have hparent : ∀ n ∈ file.parent.parts, Path.IsName n := fun n hn =>
    hfile n (List.dropLast_subset _ hn)
  have hname : Path.IsName file.name := by
    rw [Path.name, List.getLast?_eq_some_getLast hne]
    exact hfile _ (List.getLast_mem hne)
  have hdraft : ∀ n ∈ (ProjectIndex.draftOf file).parts, Path.IsName n := by
    rw [show (ProjectIndex.draftOf file).parts = _ from Path.parts_withSuffix file ".json.tmp"]
    exact forall_mem_concat hparent (ProjectIndex.isName_draftOf hname)
  unfold Disk.writeByDraft
  split
  · exact hd.withoutFile _
  · next written hwrite =>
    have hplain := hd.write hdraft hwrite
    split
    · next moved hmoved =>
      obtain ⟨-, hput⟩ := hs.of_write hwrite
      exact hplain.rename (forall_mem_concat (hd.names_of_locate hs.leads) hname)
        ⟨contents, at?_of_put hput⟩ hmoved
    · exact hplain.withoutFile _

/-- Storing an index keeps a disk plain, whether it succeeds or not. -/
theorem Plain.save {d : Disk} (hd : d.Plain) {file : Path}
    (hfile : ∀ n ∈ file.parts, Path.IsName n) (hne : file.parts ≠ []) (index : ProjectIndex) :
    (index.save d file).1.Plain := by
  have hparent : ∀ n ∈ file.parent.parts, Path.IsName n := fun n hn =>
    hfile n (List.dropLast_subset _ hn)
  unfold ProjectIndex.save
  split
  · exact hd
  · next made hmade =>
    have hplain := hd.makeFolders hparent hmade
    split
    · exact hplain
    · next folder hfolder =>
      obtain ⟨folder', inner, hfolder', hinner⟩ := leadsToFolder_makeFolders hmade
      rw [hfolder] at hfolder'
      cases hfolder'
      exact hplain.writeByDraft (hplain.seat hfolder hinner) hfile hne _

/-- **What was saved is there to be read.** -/
theorem Plain.read?_save {d : Disk} (hd : d.Plain) {file : Path}
    (hfile : ∀ n ∈ file.parts, Path.IsName n) (hne : file.parts ≠ []) {index : ProjectIndex}
    (hsaved : (index.save d file).2 = true) :
    (index.save d file).1.read? file.parts = some (Utf8.bytes index.stored) := by
  have hparent : ∀ n ∈ file.parent.parts, Path.IsName n := fun n hn =>
    hfile n (List.dropLast_subset _ hn)
  have hname : file.name ≠ ".." := by
    rw [Path.name, List.getLast?_eq_some_getLast hne]
    exact (hfile _ (List.getLast_mem hne)).2.2.1
  obtain ⟨made, hmade, hagain⟩ := exists_save_eq hsaved
  obtain ⟨folder, inner, hfolder, hinner⟩ := leadsToFolder_makeFolders hmade
  have hseat := (hd.makeFolders hparent hmade).seat hfolder hinner
  rw [hagain] at hsaved ⊢
  exact (hseat.read?_save hne hname hsaved).2

end Disk

end Concordance
