import Concordance.Lock
import Concordance.Proofs.Attempt
import Concordance.Proofs.Disk.Frame
import Concordance.Store

/-!
# Writing, and changes that keep a disk plain

A file is written where its path leads, or under the last name of the path if nothing stands there
(`Disk.of_writeWay`); so a write changes one place only.

A plain disk stays plain when a file or an empty folder is put under a name and when an entry is
taken away. So it stays plain when folders are made along a path of names, when a lock file is made
and when an index is stored.
-/

namespace Concordance

namespace Disk

/-! ### Where a file is written -/

/-- Going along a path fails at a missing name in a folder; if all names before the last can be gone
along, it is the last that is missing. -/
theorem at?_of_advance_missing {d : Disk} {way names folder : List String} {name : String}
    (hmissing : d.advance way (names ++ [name]) = .failed .missing)
    (hfolder : d.advance way names = .arrived folder) :
    (∃ inner, d.at? folder = some (.folder inner)) ∧ d.at? (folder ++ [name]) = none := by
  rw [advance_append, hfolder] at hmissing
  dsimp only at hmissing
  rw [advance] at hmissing
  split at hmissing
  · next inner hinner =>
    refine ⟨⟨inner, hinner⟩, ?_⟩
    split at hmissing
    · cases hmissing
    · split at hmissing
      · next hl => exact (Entry.at?_concat hinner name).trans hl
      · cases hmissing
      · cases hmissing
  · cases hmissing

/-- **Where a file is written.** Its path leads to a file there, or nothing stands there yet. -/
theorem of_writeWay {d : Disk} {fuel : Nat} :
    ∀ {way names place : List String}, d.writeWay fuel way names = .ok place →
      d.at? place = none ∨
        ∃ contents, d.follow fuel way names = .ok place ∧ d.at? place = some (.file contents) := by
  induction fuel with
  | zero => intro way names place h; cases h
  | succ fuel ih =>
      intro way names place h
      rw [writeWay] at h
      rw [follow]
      cases hadv : d.advance way names with
      | arrived stop =>
          rw [hadv] at h
          dsimp only at h
          split at h
          · next contents hat =>
            cases h
            exact Or.inr ⟨contents, rfl, hat⟩
          · cases h
      | link folder target rest =>
          rw [hadv] at h
          exact ih h
      | failed f =>
          rw [hadv] at h
          cases f with
          | missing =>
              dsimp only at h
              split at h
              · next name folder hlast hfolder =>
                cases h
                left
                rw [← List.dropLast_append_getLast? name hlast] at hadv
                exact (at?_of_advance_missing hadv hfolder).2
              · cases h
          | notAFolder => cases h
          | alreadyThere => cases h
          | isFolder => cases h
          | tooManyLinks => cases h

/-- A path that leads somewhere can be gone on from there when a file is written, too. -/
theorem exists_writeWay_append {d : Disk} {fuel : Nat} :
    ∀ {way names stop : List String}, d.follow fuel way names = .ok stop →
      ∃ left, ∀ rest, rest ≠ [] →
        d.writeWay fuel way (names ++ rest) = d.writeWay (left + 1) stop rest := by
  induction fuel with
  | zero => intro way names stop h; cases h
  | succ fuel ih =>
      intro way names stop h
      rw [follow] at h
      split at h
      · next w hadv =>
        cases h
        refine ⟨fuel, fun rest hrest => ?_⟩
        have hlast : (names ++ rest).getLast? = rest.getLast? := by
          rw [List.getLast?_append_of_ne_nil _ hrest]
        have hbefore : d.advance way (names ++ rest).dropLast = d.advance stop rest.dropLast := by
          rw [List.dropLast_append_of_ne_nil hrest, advance_append, hadv]
        rw [writeWay, writeWay, advance_append, hadv, hlast, hbefore]
      · next folder target left hadv =>
        obtain ⟨fuel', hgo⟩ := ih h
        refine ⟨fuel', fun rest hrest => ?_⟩
        rw [writeWay, advance_append, hadv]
        dsimp only
        rw [← List.append_assoc]
        exact hgo rest hrest
      · cases h

/-- A file in a folder that a path leads to is written under its own name, if no link and no folder
stands there. -/
theorem writeWay_concat {d : Disk} {names folder : List String} {inner : List (String × Entry)}
    (h : d.locate names = .ok folder) (hfolder : d.at? folder = some (.folder inner))
    {name : String} (hname : name ≠ "..") (hend : Entry.IsEnd (d.at? (folder ++ [name]))) :
    d.writeWay linkBound [] (names ++ [name]) = .ok (folder ++ [name]) := by
  obtain ⟨left, hgo⟩ := exists_writeWay_append h
  have hnext : d.at? (folder ++ [name]) = inner.lookup name := Entry.at?_concat hfolder name
  have hstep : d.advance folder [name] =
      if (inner.lookup name).isSome then .arrived (folder ++ [name]) else .failed .missing := by
    rw [hnext] at hend
    rw [advance, hfolder]
    dsimp only
    rw [if_neg (by simpa using hname)]
    generalize inner.lookup name = x at hend
    cases hend with
    | missing => rfl
    | file contents => rfl
  rw [hgo [name] (by simp), writeWay, hstep]
  generalize hx : d.at? (folder ++ [name]) = x at hend
  rw [← hnext, hx]
  cases hend with
  | missing => rfl
  | file contents =>
      rw [Option.isSome_some, if_pos rfl]
      dsimp only
      rw [hx]

/-- The write of a file under its own name in a folder. -/
theorem write_concat {d : Disk} {names folder : List String} {inner : List (String × Entry)}
    (h : d.locate names = .ok folder) (hfolder : d.at? folder = some (.folder inner))
    {name : String} (hname : name ≠ "..") (hend : Entry.IsEnd (d.at? (folder ++ [name])))
    (contents : Bytes) :
    d.write (names ++ [name]) contents = d.put (folder ++ [name]) (.file contents) := by
  rw [write, writeWay_concat h hfolder hname hend]
  rfl

/-- A file is written in one place; it was a file before, or nothing stood there. -/
theorem exists_changedAt_of_write {d d' : Disk} {names : List String} {contents : Bytes}
    (h : d.write names contents = .ok d') :
    ∃ place, ChangedAt place d d' ∧ d'.at? place = some (.file contents) ∧
      (d.at? place = none ∨
        ∃ old, d.locate names = .ok place ∧ d.at? place = some (.file old)) := by
  unfold write at h
  obtain ⟨place, hplace, hput⟩ := Attempt.exists_of_bind_eq_ok h
  have hfree := of_writeWay hplace
  have hend : Entry.IsEnd (d.at? place) := by
    rcases hfree with hnone | ⟨old, -, hold⟩
    · exact hnone ▸ .missing
    · exact hold ▸ .file old
  exact ⟨place, changedAt_put hend hput, at?_of_put hput, hfree⟩

/-! ### Plain disks -/

/-- A disk on which all stands that stood on a plain one, else only files and folders under names,
is plain. -/
theorem Plain.of_alike {d d' : Disk} (hd : d.Plain)
    (h : ∀ w x, d'.at? w = some x →
      ((∀ target, x ≠ .link target) ∧ ∀ n ∈ w, Path.IsName n) ∨
        ∃ y, d.at? w = some y ∧ Entry.Alike y x) : d'.Plain where
  noLink w target hlink := by
    rcases h w _ hlink with ⟨hno, -⟩ | ⟨y, hy, halike⟩
    · exact hno target rfl
    · cases halike
      exact hd.noLink w target hy
  names {w x} hat := by
    rcases h w x hat with ⟨-, hnames⟩ | ⟨y, hy, -⟩
    · exact hnames
    · exact hd.names hy

/-- Putting a bare entry at the end of a way of names keeps a disk plain. -/
theorem Plain.put {d d' : Disk} (hd : d.Plain) {way : List String}
    (hway : ∀ n ∈ way, Path.IsName n) {e : Entry} (he : e.IsBare) (h : d.put way e = .ok d') :
    d'.Plain := by
  refine hd.of_alike fun w x hx => ?_
  by_cases hpre : way <+: w
  · obtain ⟨rest, rfl⟩ := hpre
    by_cases hrest : rest = []
    · subst hrest
      rw [List.append_nil] at hx ⊢
      rw [at?_of_put h] at hx
      cases hx
      exact Or.inl ⟨by cases he <;> simp, hway⟩
    · rw [show d'.at? (way ++ rest) = none from he.at?_append (at?_of_put h) hrest] at hx
      cases hx
  · right
    have hrel := rel_at?_of_put h hpre
    rw [hx] at hrel
    generalize d.at? w = y at hrel
    cases hrel with
    | some halike => exact ⟨_, rfl, halike⟩

/-- Taking an entry away keeps a disk plain. -/
theorem Plain.without {d : Disk} (hd : d.Plain) (way : List String) : (d.without way).Plain := by
  rw [Disk.without]
  split
  · next top htop =>
    refine hd.of_alike fun w x hx => Or.inr ?_
    change Entry.at? w top = some x at hx
    by_cases hpre : way <+: w
    · obtain ⟨rest, rfl⟩ := hpre
      rw [Entry.at?_append, Entry.at?_remove?_self htop] at hx
      cases hx
    · have hrel := Entry.rel_at?_remove? htop hpre
      rw [hx] at hrel
      generalize hy : Entry.at? w d.top = y at hrel
      cases hrel with
      | some halike => exact ⟨_, hy, halike⟩
  · exact hd

/-- Taking away a file keeps a disk plain. -/
theorem Plain.withoutFile {d : Disk} (hd : d.Plain) (way : List String) :
    (d.withoutFile way).Plain := by
  unfold Disk.withoutFile
  split
  · exact hd
  · exact hd.without way

/-- On a plain disk a path leads along names. -/
theorem Plain.names_of_locate {d : Disk} (hd : d.Plain) {names way : List String}
    (h : d.locate names = .ok way) : ∀ n ∈ way, Path.IsName n := by
  obtain ⟨e, he⟩ := exists_at?_of_advance ⟨_, rfl⟩ (hd.advance_of_locate h)
  exact hd.names he

theorem forall_mem_concat {P : String → Prop} {folder : List String} {name : String}
    (hfolder : ∀ n ∈ folder, P n) (hname : P name) : ∀ n ∈ folder ++ [name], P n := by
  intro n hn
  rcases List.mem_append.mp hn with hn | hn
  · exact hfolder n hn
  · exact List.mem_singleton.mp hn ▸ hname

/-- Making folders along a path of names keeps a disk plain. -/
theorem Plain.makeFoldersFrom {names : List String} (hnames : ∀ n ∈ names, Path.IsName n) :
    ∀ {d d' : Disk} {done : List String}, d.Plain → d.makeFoldersFrom done names = .ok d' →
      d'.Plain := by
  induction names with
  | nil => intro d d' done hd h; cases h; exact hd
  | cons name names ih =>
      intro d d' done hd h
      obtain ⟨hname, hrest⟩ := List.forall_mem_cons.mp hnames
      rw [Disk.makeFoldersFrom] at h
      split at h
      · split at h
        · exact ih hrest hd h
        · cases h
      · cases hfolder : d.locate done with
        | error f => rw [hfolder] at h; cases h
        | ok folder =>
            rw [hfolder] at h
            change (if _ then _ else _) = _ at h
            split at h
            · cases h
            · cases hput : d.put (folder ++ [name]) (.folder []) with
              | error f => rw [hput] at h; cases h
              | ok made =>
                  rw [hput] at h
                  have hway := forall_mem_concat (hd.names_of_locate hfolder) hname
                  exact ih hrest (hd.put hway .folder hput) h
      · cases h

/-- Making folders under proper names keeps a disk plain. -/
theorem Plain.makeFolders {d d' : Disk} (hd : d.Plain) {names : List String}
    (hnames : ∀ n ∈ names, Path.IsName n) (h : d.makeFolders names = .ok d') : d'.Plain :=
  Plain.makeFoldersFrom hnames hd h

/-- On a plain disk a file is written under the last name of its path. -/
theorem Plain.names_of_writeWay {d : Disk} (hd : d.Plain) {names way : List String}
    (hnames : ∀ n ∈ names, Path.IsName n) (h : d.writeWay linkBound [] names = .ok way) :
    ∀ n ∈ way, Path.IsName n := by
  rw [linkBound, writeWay] at h
  split at h
  · split at h
    · next contents hat =>
      cases h
      exact hd.names hat
    · cases h
  · next folder target rest hadv => exact absurd hadv (hd.advance_ne_link names [] _ _ _)
  · split at h
    · next name folder hlast hfolder =>
      cases h
      obtain ⟨e, he⟩ := exists_at?_of_advance ⟨_, rfl⟩ hfolder
      exact forall_mem_concat (hd.names he) (hnames name (List.mem_of_getLast? hlast))
    · cases h
  · cases h

/-- So does writing a file. -/
theorem Plain.write {d d' : Disk} (hd : d.Plain) {names : List String}
    (hnames : ∀ n ∈ names, Path.IsName n) {contents : Bytes}
    (h : d.write names contents = .ok d') : d'.Plain := by
  unfold Disk.write at h
  obtain ⟨way, hway, hput⟩ := Attempt.exists_of_bind_eq_ok h
  exact hd.put (hd.names_of_writeWay hnames hway) (.file contents) hput

/-- Renaming in a folder keeps a disk plain. -/
theorem Plain.rename {d d' : Disk} (hd : d.Plain) {folder : List String} {name newName : String}
    (hway : ∀ n ∈ folder ++ [newName], Path.IsName n)
    (hfile : ∃ contents, d.at? (folder ++ [name]) = some (.file contents))
    (h : d.rename folder name newName = .ok d') : d'.Plain := by
  obtain ⟨contents, hfile⟩ := hfile
  unfold Disk.rename at h
  split at h
  · cases h
  · rw [hfile] at h
    exact (hd.without _).put hway (.file contents) h

end Disk

/-- Making the file of a lock keeps a disk plain. -/
theorem Disk.Plain.makeLockFile {d d' : Disk} (hd : d.Plain) {file : Path}
    (hfile : ∀ n ∈ file.parts, Path.IsName n) (h : Host.makeLockFile d file = .ok d') :
    d'.Plain := by
  have hparent : ∀ n ∈ file.parent.parts, Path.IsName n := fun n hn =>
    hfile n (List.dropLast_subset _ hn)
  rw [Host.makeLockFile] at h
  obtain ⟨made, hmade, h⟩ := Attempt.exists_of_bind_eq_ok h
  have hplain := hd.makeFolders hparent hmade
  split at h
  · cases h; exact hplain
  · exact hplain.write hfile h

end Concordance
