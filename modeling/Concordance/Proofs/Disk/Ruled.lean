import Concordance.Proofs.Disk.Seat

/-!
# Rules for names and links

Some facts hold of a disk only if its names, or the targets of its links, are not just any texts. A
disk is *ruled* by `P` and `L` if every name on it satisfies `P` and every link on it leads to a path
that satisfies `L`. A change brings names of the paths that it is given, and of links that it goes
through, and no new links. So what a project does to its disk keeps such rules, if the path of its
index does (`Ruled.save`, `Ruled.makeLockFile`).
-/

namespace Concordance

variable {P : String → Prop} {L : Path → Prop}

/-- What is found under a key is one of the entries. -/
theorem mem_of_lookup {κ α : Type} [BEq κ] [LawfulBEq κ] {entries : List (κ × α)} {k : κ} {a : α}
    (h : entries.lookup k = some a) : (k, a) ∈ entries := by
  induction entries with
  | nil => cases h
  | cons f entries ih =>
      obtain ⟨l, b⟩ := f
      rw [List.lookup_cons] at h
      by_cases hl : k = l
      · subst hl
        rw [beq_self_eq_true] at h
        cases h
        exact List.mem_cons_self
      · rw [beq_false_of_ne hl] at h
        exact List.mem_cons_of_mem _ (ih h)

namespace Entry

/-- Every name in an entry satisfies `P`, and every link in it leads to a path that satisfies `L`. -/
inductive Ruled (P : String → Prop) (L : Path → Prop) : Entry → Prop
  | file (contents : Bytes) : Ruled P L (.file contents)
  | link {target : Path} (h : L target) : Ruled P L (.link target)
  | folder {entries : List (String × Entry)} (names : ∀ f ∈ entries, P f.1)
      (inner : ∀ f ∈ entries, Ruled P L f.2) : Ruled P L (.folder entries)

/-- The target of a ruled link keeps to the rule. -/
theorem Ruled.target {target : Path} (h : Ruled P L (.link target)) : L target := by
  cases h with
  | link h => exact h

/-- So do the names in a ruled folder. -/
theorem Ruled.names {entries : List (String × Entry)} (h : Ruled P L (.folder entries)) :
    ∀ f ∈ entries, P f.1 := by
  cases h with
  | folder names inner => exact names

/-- So does everything in it. -/
theorem Ruled.inside {entries : List (String × Entry)} (h : Ruled P L (.folder entries)) :
    ∀ f ∈ entries, Ruled P L f.2 := by
  cases h with
  | folder names inner => exact inner

/-- Putting an entry under a name brings nothing else. -/
theorem mem_set {name : String} {e : Entry} {entries : List (String × Entry)} {f : String × Entry}
    (h : f ∈ set name e entries) : f = (name, e) ∨ f ∈ entries := by
  induction entries with
  | nil => exact .inl (List.mem_singleton.mp h)
  | cons g entries ih =>
      rw [set] at h
      split at h
      · rcases List.mem_cons.mp h with h | h
        · exact .inl h
        · exact .inr (List.mem_cons_of_mem _ h)
      · rcases List.mem_cons.mp h with h | h
        · exact .inr (h ▸ List.mem_cons_self)
        · rcases ih h with h | h
          · exact .inl h
          · exact .inr (List.mem_cons_of_mem _ h)

/-- A ruled folder stays so when something ruled is put under a name that keeps to the rule. -/
theorem Ruled.set {entries : List (String × Entry)} (h : Ruled P L (.folder entries))
    {name : String} (hname : P name) {e : Entry} (he : Ruled P L e) :
    Ruled P L (.folder (set name e entries)) := by
  refine .folder (fun f hf => ?_) fun f hf => ?_
  · rcases mem_set hf with rfl | hf
    · exact hname
    · exact h.names f hf
  · rcases mem_set hf with rfl | hf
    · exact he
    · exact h.inside f hf

/-- **What stands at the end of a way** is ruled, and the way goes along names that are. -/
theorem Ruled.at? {way : List String} :
    ∀ {entries : List (String × Entry)} {e : Entry}, Ruled P L (.folder entries) →
      Entry.at? way entries = some e → (∀ n ∈ way, P n) ∧ Ruled P L e := by
  induction way with
  | nil =>
      intro entries e h hat
      cases hat
      exact ⟨by simp, h⟩
  | cons name way ih =>
      intro entries e h hat
      cases hl : entries.lookup name with
      | none =>
          rw [Entry.at?, hl] at hat
          cases hat
      | some found =>
          have hmem := mem_of_lookup hl
          have hname : P name := h.names _ hmem
          cases found with
          | folder inner =>
              rw [at?_of_lookup_folder hl] at hat
              obtain ⟨hway, he⟩ := ih (h.inside _ hmem) hat
              exact ⟨List.forall_mem_cons.mpr ⟨hname, hway⟩, he⟩
          | file contents =>
              rw [Entry.at?, hl] at hat
              cases way with
              | nil =>
                  cases hat
                  exact ⟨by simpa using hname, h.inside _ hmem⟩
              | cons n way => cases hat
          | link target =>
              rw [Entry.at?, hl] at hat
              cases way with
              | nil =>
                  cases hat
                  exact ⟨by simpa using hname, h.inside _ hmem⟩
              | cons n way => cases hat

/-- Putting a ruled entry at the end of a way of names that are ruled. -/
theorem Ruled.put? {e : Entry} (he : Ruled P L e) {way : List String} :
    ∀ {entries entries' : List (String × Entry)}, (∀ n ∈ way, P n) →
      Ruled P L (.folder entries) → Entry.put? e way entries = some entries' →
      Ruled P L (.folder entries') := by
  induction way with
  | nil =>
      intro entries entries' hway h hput
      cases hput
  | cons name way ih =>
      intro entries entries' hway h hput
      obtain ⟨hname, hrest⟩ := List.forall_mem_cons.mp hway
      cases way with
      | nil =>
          cases hput
          exact h.set hname he
      | cons n way =>
          rw [Entry.put?] at hput
          · split at hput
            · next inner hl =>
              obtain ⟨inner', hinner', rfl⟩ := Option.map_eq_some_iff.mp hput
              exact h.set hname (ih hrest (h.inside _ (mem_of_lookup hl)) hinner')
            · cases hput
          · exact List.cons_ne_nil n way

/-- Taking an entry away. -/
theorem Ruled.remove? {way : List String} :
    ∀ {entries entries' : List (String × Entry)}, Ruled P L (.folder entries) →
      Entry.remove? way entries = some entries' → Ruled P L (.folder entries') := by
  induction way with
  | nil =>
      intro entries entries' h hremove
      cases hremove
  | cons name way ih =>
      intro entries entries' h hremove
      cases way with
      | nil =>
          rw [Entry.remove?] at hremove
          split at hremove
          · cases hremove
            exact .folder (fun f hf => h.names f (List.mem_of_mem_filter hf))
              fun f hf => h.inside f (List.mem_of_mem_filter hf)
          · cases hremove
      | cons n way =>
          rw [Entry.remove?] at hremove
          · split at hremove
            · next inner hl =>
              have hmem := mem_of_lookup hl
              obtain ⟨inner', hinner', rfl⟩ := Option.map_eq_some_iff.mp hremove
              exact h.set (h.names _ hmem) (ih (h.inside _ hmem) hinner')
            · cases hremove
          · exact List.cons_ne_nil n way

end Entry

namespace Disk

/-- Every name on a disk satisfies `P`, and every link on it leads to a path that satisfies `L`. -/
def Ruled (P : String → Prop) (L : Path → Prop) (d : Disk) : Prop :=
  Entry.Ruled P L (.folder d.top)

variable {d d' : Disk}

/-- All names on the way to something keep to the rule. -/
theorem Ruled.names_of_at? (hd : d.Ruled P L) {way : List String} {e : Entry}
    (h : d.at? way = some e) : ∀ n ∈ way, P n :=
  (Entry.Ruled.at? hd h).1

/-- So do those on the way to where a path leads. -/
theorem Ruled.names_of_locate (hd : d.Ruled P L) {names way : List String}
    (h : d.locate names = .ok way) : ∀ n ∈ way, P n := by
  obtain ⟨e, he⟩ := exists_at?_of_locate h
  exact hd.names_of_at? he

/-- Putting something ruled somewhere keeps a disk ruled. -/
theorem Ruled.put (hd : d.Ruled P L) {way : List String} (hway : ∀ n ∈ way, P n) {e : Entry}
    (he : e.Ruled P L) (h : d.put way e = .ok d') : d'.Ruled P L := by
  unfold Disk.put at h
  split at h
  · next top htop =>
    cases h
    exact Entry.Ruled.put? he hway hd htop
  · cases h

/-- So does taking something away. -/
theorem Ruled.without (hd : d.Ruled P L) (way : List String) : (d.without way).Ruled P L := by
  unfold Disk.without
  split
  · next top htop => exact Entry.Ruled.remove? hd htop
  · exact hd

/-- So does taking away a file. -/
theorem Ruled.withoutFile (hd : d.Ruled P L) (way : List String) :
    (d.withoutFile way).Ruled P L := by
  unfold Disk.withoutFile
  split
  · exact hd
  · exact hd.without way

/-- Renaming moves an entry of the disk. -/
theorem Ruled.rename (hd : d.Ruled P L) {folder : List String} {name newName : String}
    (hfolder : ∀ n ∈ folder, P n) (hname : P newName)
    (h : d.rename folder name newName = .ok d') : d'.Ruled P L := by
  unfold Disk.rename at h
  split at h
  · cases h
  · split at h
    · next e he =>
      exact (hd.without _).put (forall_mem_concat hfolder hname) (Entry.Ruled.at? hd he).2 h
    · cases h

/-- A path brings no other names to a disk than those that satisfy `P`; a double dot names nothing. -/
def Brings (P : String → Prop) (names : List String) : Prop := ∀ n ∈ names, n ≠ ".." → P n

/-- Making folders along a path. -/
theorem Ruled.makeFoldersFrom {names : List String} (hnames : Brings P names) :
    ∀ {d d' : Disk} {done : List String}, d.Ruled P L → d.makeFoldersFrom done names = .ok d' →
      d'.Ruled P L := by
  induction names with
  | nil =>
      intro d d' done hd h
      cases h
      exact hd
  | cons name names ih =>
      intro d d' done hd h
      obtain ⟨hname, hrest⟩ := List.forall_mem_cons.mp hnames
      rw [Disk.makeFoldersFrom] at h
      split at h
      · split at h
        · exact ih hrest hd h
        · cases h
      · next hmissing =>
        cases hfolder : d.locate done with
        | error f =>
            rw [hfolder] at h
            cases h
        | ok folder =>
            rw [hfolder] at h
            change (if _ then _ else _) = _ at h
            split at h
            · cases h
            · cases hput : d.put (folder ++ [name]) (.folder []) with
              | error f =>
                  rw [hput] at h
                  cases h
              | ok made =>
                  rw [hput] at h
                  obtain ⟨inner, hinner⟩ := exists_folder_of_locate_missing hfolder hmissing
                  have hup := ne_up_of_locate_missing hfolder hinner hmissing
                  have hway := forall_mem_concat (hd.names_of_locate hfolder) (hname hup)
                  have hempty : Entry.Ruled P L (.folder []) := .folder (by simp) (by simp)
                  exact ih hrest (hd.put hway hempty hput) h
      · cases h

/-- So does making folders. -/
theorem Ruled.makeFolders (hd : d.Ruled P L) {names : List String} (hnames : Brings P names)
    (h : d.makeFolders names = .ok d') : d'.Ruled P L :=
  Ruled.makeFoldersFrom hnames hd h

/-- Where a path goes through a link, its rest is a part of it. -/
theorem link_of_advance {names : List String} :
    ∀ {way folder rest : List String} {target : Path},
      d.advance way names = .link folder target rest →
      (∃ w, d.at? w = some (.link target)) ∧ rest ⊆ names := by
  induction names with
  | nil =>
      intro way folder rest target h
      cases h
  | cons name names ih =>
      intro way folder rest target h
      rw [advance] at h
      split at h
      · next inner hinner =>
        split at h
        · obtain ⟨hlink, hsub⟩ := ih h
          exact ⟨hlink, List.subset_cons_of_subset _ hsub⟩
        · split at h
          · cases h
          · next target' hl =>
            cases h
            refine ⟨⟨way ++ [name], ?_⟩, List.subset_cons_self _ _⟩
            rw [Disk.at?, Entry.at?_concat hinner]
            exact hl
          · obtain ⟨hlink, hsub⟩ := ih h
            exact ⟨hlink, List.subset_cons_of_subset _ hsub⟩
      · cases h

/-- What a path brings, and what a link on its way brings. -/
theorem Ruled.brings_of_advance (hd : d.Ruled P L) (hL : ∀ {t : Path}, L t → Brings P t.parts)
    {way names folder rest : List String} {target : Path} (hnames : Brings P names)
    (h : d.advance way names = .link folder target rest) : Brings P (target.parts ++ rest) := by
  obtain ⟨⟨w, hw⟩, hrest⟩ := link_of_advance h
  intro n hn hup
  rcases List.mem_append.mp hn with hn | hn
  · exact hL (Entry.Ruled.at? hd hw).2.target n hn hup
  · exact hnames n (hrest hn) hup

/-- The names on the way of a file that is written. -/
theorem Ruled.names_of_writeWay (hd : d.Ruled P L) (hL : ∀ {t : Path}, L t → Brings P t.parts)
    {fuel : Nat} :
    ∀ {way names place : List String}, (∃ e, d.at? way = some e) → Brings P names →
      d.writeWay fuel way names = .ok place → ∀ n ∈ place, P n := by
  induction fuel with
  | zero =>
      intro way names place hway hnames h
      cases h
  | succ fuel ih =>
      intro way names place hway hnames h
      rw [writeWay] at h
      split at h
      · split at h
        · next contents hat =>
          cases h
          exact hd.names_of_at? hat
        · cases h
      · next folder target rest hadv =>
        obtain ⟨inner, hinner⟩ := exists_folder_of_advance_link hadv
        exact ih (exists_at?_startOf hinner target) (hd.brings_of_advance hL hnames hadv) h
      · next hmissing =>
        split at h
        · next name folder hlast hfolder =>
          cases h
          obtain ⟨e, he⟩ := exists_at?_of_advance hway hfolder
          have hlast' : names.dropLast ++ [name] = names :=
            List.dropLast_append_getLast? name hlast
          have hname : name ≠ ".." := by
            rintro rfl
            rw [← hlast', advance_append, hfolder] at hmissing
            dsimp only [advance] at hmissing
            split at hmissing <;> cases hmissing
          exact forall_mem_concat (hd.names_of_at? he)
            (hnames name (List.mem_of_getLast? hlast) hname)
        · cases h
      · cases h

/-- So does writing a file, if no link leads to a name that breaks the rule. -/
theorem Ruled.write (hd : d.Ruled P L) (hL : ∀ {t : Path}, L t → Brings P t.parts)
    {names : List String} (hnames : Brings P names) {contents : Bytes}
    (h : d.write names contents = .ok d') : d'.Ruled P L := by
  unfold Disk.write at h
  obtain ⟨way, hway, hput⟩ := Attempt.exists_of_bind_eq_ok h
  exact hd.put (hd.names_of_writeWay hL ⟨_, rfl⟩ hnames hway) (.file contents) hput

/-- **Making the file of a lock.** -/
theorem Ruled.makeLockFile (hd : d.Ruled P L) (hL : ∀ {t : Path}, L t → Brings P t.parts)
    {file : Path} (hfile : Brings P file.parts) (h : Host.makeLockFile d file = .ok d') :
    d'.Ruled P L := by
  have hparent : Brings P file.parent.parts := fun n hn => hfile n (List.dropLast_subset _ hn)
  rw [Host.makeLockFile] at h
  obtain ⟨made, hmade, h⟩ := Attempt.exists_of_bind_eq_ok h
  have hruled := hd.makeFolders hparent hmade
  split at h
  · cases h
    exact hruled
  · exact hruled.write hL hfile h

/-- The path of a file with another suffix brings the same names but the last. -/
theorem brings_withSuffix {file : Path} (hfile : Brings P file.parts) {suffix : String}
    (hname : P (file.withSuffix suffix).name) : Brings P (file.withSuffix suffix).parts := by
  rw [Path.parts_withSuffix]
  intro n hn hup
  rcases List.mem_append.mp hn with hn | hn
  · exact hfile n (List.dropLast_subset _ hn) hup
  · exact List.mem_singleton.mp hn ▸ hname

/-- Writing by a draft, whether it succeeds or not. -/
theorem Ruled.writeByDraft (hd : d.Ruled P L) (hL : ∀ {t : Path}, L t → Brings P t.parts)
    {file : Path} {folder : List String} (hfile : Brings P file.parts) (hname : P file.name)
    (hdraft : P (ProjectIndex.draftOf file).name) (hfolder : ∀ n ∈ folder, P n)
    (contents : Bytes) :
    (d.writeByDraft folder (ProjectIndex.draftOf file) file contents).1.Ruled P L := by
  unfold Disk.writeByDraft
  split
  · exact hd.withoutFile _
  · next written hwrite =>
    have hruled := hd.write hL (brings_withSuffix hfile hdraft) hwrite
    split
    · next moved hmoved => exact hruled.rename hfolder hname hmoved
    · exact hruled.withoutFile _

/-- **Storing an index**, whether it succeeds or not. -/
theorem Ruled.save (hd : d.Ruled P L) (hL : ∀ {t : Path}, L t → Brings P t.parts) {file : Path}
    (hfile : Brings P file.parts) (hname : P file.name)
    (hdraft : P (ProjectIndex.draftOf file).name) (index : ProjectIndex) :
    (index.save d file).1.Ruled P L := by
  have hparent : Brings P file.parent.parts := fun n hn => hfile n (List.dropLast_subset _ hn)
  unfold ProjectIndex.save
  split
  · exact hd
  · next made hmade =>
    have hruled := hd.makeFolders hparent hmade
    split
    · exact hruled
    · next folder hfolder =>
      exact hruled.writeByDraft hL hfile hname hdraft (hruled.names_of_locate hfolder) _

end Disk

end Concordance
