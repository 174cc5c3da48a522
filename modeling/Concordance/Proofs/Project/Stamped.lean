import Concordance.Proofs.Parse.Stamped
import Concordance.Proofs.Project.Incremental
import Concordance.Proofs.Project.Storing

/-!
# Records of an index name their file

A file that is read under an id gives records that name the id (`stamped_parseFile`), unless the id
is empty: then its path takes the place of the id. On a disk without empty names no id is empty,
however the links on it lead, and what a project stores brings no such name (`Session.Named.after`).
So in every state of a session each entry was read under its own id, from contents that occurred in
the session (`Session.Traced.run`).

The main statement is `Session.stamped_of_get?`.
-/

namespace Concordance

/-- No name on a disk is empty, nor one on the path of a link. -/
def Disk.Named (d : Disk) : Prop :=
  d.Ruled (· ≠ "") fun target => ∀ n ∈ target.parts, n ≠ ""

namespace Project

/-- The id of what can be read on a disk without empty names is not empty. -/
theorem id_ne_empty {d : Disk} (hd : d.Named) {s : Scanner} {names : List String}
    {contents : Bytes} {id : String} (hread : d.read? names = some contents)
    (hid : s.id? d names = some id) : id ≠ "" := by
  obtain ⟨way, hway, -⟩ := Disk.exists_way_of_read? hread
  obtain ⟨parts, rfl, rfl⟩ := (Scanner.id?_eq_some_iff hway).mp hid
  exact Path.toText_ne_empty fun n hn => hd.names_of_locate hway n (List.mem_append_right _ hn)

/-- Every entry was read under its own id, which is not empty, from contents among `known`. -/
def Traced (read : FileReader) (known : List Bytes) (files : Roster String FileEntry) : Prop :=
  ∀ id e, files.get? id = some e → id ≠ "" ∧ ∃ path, ∃ contents ∈ known,
    read path contents id = .ok (some e)

end Project

namespace Session

variable {read : FileReader} {known : List Bytes}

/-- A session on a disk without empty names, and with an index at a path without such names. -/
structure Named (s : Session) : Prop where
  disk : s.host.disk.Named
  names : ∀ n ∈ s.project.indexFile.parts, n ≠ ""
  isFile : s.project.indexFile.parts ≠ []

/-- What comes from outside leaves a disk without empty names. -/
def Event.IsNamed : Event → Prop
  | .outside host => host.disk.Named
  | _ => True

/-- A file with a suffix has a name that is not empty. -/
theorem name_withSuffix_ne_empty (file : Path) {suffix : String} (h : suffix ≠ "") :
    (file.withSuffix suffix).name ≠ "" := by
  rw [Path.name_withSuffix]
  simp [h]

theorem brings_of_ne_empty {file : Path} (h : ∀ n ∈ file.parts, n ≠ "") :
    Disk.Brings (· ≠ "") file.parts :=
  fun n hn _ => h n hn

/-- Asking for the lock brings no empty name. -/
theorem Named.seen {s : Session} (hs : s.Named) : s.seen.Named := by
  have hlock : Disk.Brings (· ≠ "") (lockFile s.project.indexFile).parts :=
    Disk.brings_withSuffix (brings_of_ne_empty hs.names) (name_withSuffix_ne_empty _ (by decide))
  unfold Session.seen Project.seen Host.acquire
  dsimp only
  split
  · exact hs.disk
  · split
    · exact hs.disk
    · next disk hmade =>
      have hnamed : disk.Named :=
        hs.disk.makeLockFile (fun ht n hn _ => ht n hn) hlock hmade
      split
      · exact hnamed
      · exact hnamed

/-- Storing an index brings no empty name. -/
theorem Named.save {s : Session} (hs : s.Named) {d : Disk} (hd : d.Named) (index : ProjectIndex) :
    (index.save d s.project.indexFile).1.Named := by
  have hname : s.project.indexFile.name ≠ "" := by
    apply hs.names
    rw [← Path.parts_eq hs.isFile]
    exact List.mem_append_right _ (List.mem_singleton.mpr rfl)
  exact hd.save (fun ht n hn _ => ht n hn) (brings_of_ne_empty hs.names) hname
    (name_withSuffix_ne_empty _ (by decide)) index

/-- **One event** brings no empty name. -/
theorem Named.after {s : Session} (hs : s.Named) {event : Event} (hevent : event.IsNamed) :
    (s.after read event).Named := by
  rcases s.after_or read event with ⟨host, rfl⟩ | ⟨hproject, hdisk⟩ | ⟨q, now, hchange, hstored⟩
  · exact ⟨hevent, hs.names, hs.isFile⟩
  · refine ⟨?_, ?_, ?_⟩
    · rw [hdisk]
      exact hs.seen
    · rw [hproject]
      exact hs.names
    · rw [hproject]
      exact hs.isFile
  · have hfile := (Event.samePlace_of_change? hchange).indexFile
    have hplace : (s.after read event).project.indexFile = s.project.indexFile := by
      rw [hstored.project]
      exact hfile
    refine ⟨?_, ?_, ?_⟩
    · rw [hstored.disk, hfile]
      exact hs.save hs.seen _
    · rw [hplace]
      exact hs.names
    · rw [hplace]
      exact hs.isFile

/-- What an event stores was traced before or is read from the disk. -/
theorem Event.traced_of_change? {s : Session} {q : Project} {event : Event} {now : Number}
    (hd : s.seen.Named) (h : Project.Traced read known s.project.index.files)
    (hknown : s.contentsRead event ⊆ known)
    (hchange : event.change? read s.project s.seen = some (q, now)) :
    Project.Traced read known q.index.files := by
  intro id e hget
  cases Event.source_of_change? hchange hget with
  | before hget => exact h id e hget
  | found hscanner hf hid hread =>
      subst hid
      obtain ⟨hcontents, hid⟩ := Project.read?_of_mem_scan hf
      exact ⟨Project.id_ne_empty hd hcontents hid, _, _,
        hknown (mem_contentsRead_indexAll hscanner hf), hread⟩
  | visited hentry =>
      obtain ⟨contents, scanner, hcontents, -, hid, hread⟩ := Project.read_of_entryFor? hentry
      refine ⟨Project.id_ne_empty hd hcontents hid, _, contents, hknown ?_, hread⟩
      rw [contentsRead]
      exact Option.mem_toList.mpr hcontents

/-- The entries of the session's index were read under their own ids. -/
def Traced (read : FileReader) (known : List Bytes) (s : Session) : Prop :=
  Project.Traced read known s.project.index.files

/-- **One event** leaves every entry traced, if the contents that it reads are known. -/
theorem Traced.after {s : Session} (hs : s.Named) (h : s.Traced read known) {event : Event}
    (hknown : s.contentsRead event ⊆ known) : (s.after read event).Traced read known := by
  unfold Traced
  rcases s.after_or read event with ⟨host, rfl⟩ | hidle | ⟨q, now, hchange, hstored⟩
  · exact h
  · rw [hidle.project]
    exact h
  · have htraced : Project.Traced read known q.index.files :=
      Event.traced_of_change? hs.seen h hknown hchange
    rw [hstored.project]
    exact htraced

/-- **A whole session** leaves every entry traced. -/
theorem Traced.run {s : Session} (hs : s.Named) (h : s.Traced read known) {events : List Event}
    (hevents : ∀ event ∈ events, event.IsNamed) (hknown : s.occurring read events ⊆ known) :
    (s.run read events).Traced read known := by
  induction events generalizing s with
  | nil => exact h
  | cons event events ih =>
      obtain ⟨hevent, hevents⟩ := List.forall_mem_cons.mp hevents
      obtain ⟨hfirst, hrest⟩ := List.append_subset.mp hknown
      exact ih (hs.after hevent) (h.after hs hfirst) hevents hrest

/-- **Every record names its file.** Let a session start from an empty index and let anything happen
in it. Then the entry under an id names the id, as do all its symbols, imports, exports and
references; its symbols name its language; and it bears the fingerprint of contents that occurred in
the session and that it was read from. -/
theorem stamped_of_get? {grammars : Grammars} {start : Session} (hstart : start.Named)
    (hempty : start.project.index.files = .empty) {events : List Event}
    (hevents : ∀ event ∈ events, event.IsNamed) {id : String} {e : FileEntry}
    (h : (start.run (parseFile grammars) events).project.index.files.get? id = some e) :
    e.Stamped id ∧ ∃ path, ∃ contents ∈ start.occurring (parseFile grammars) events,
      parseFile grammars path contents id = .ok (some e) ∧
        e.digest = Digest.fingerprint contents := by
  have hbegin : start.Traced (parseFile grammars) (start.occurring (parseFile grammars) events) := by
    intro id e hget
    rw [hempty] at hget
    cases hget
  obtain ⟨hid, path, contents, hmem, hread⟩ :=
    Traced.run hstart hbegin hevents (List.Subset.refl _) id e h
  obtain ⟨hstamped, hdigest⟩ := stamped_parseFile hid hread
  exact ⟨hstamped, path, contents, hmem, hread, hdigest⟩

section Composite

/-- A component with a script and a template. -/
def component : Bytes :=
  Utf8.bytes "<script setup>\nx\n</script><template><Foo/></template>"

/-- A disk with a project of one component, and a link to it in a folder. -/
def componentDisk : Disk :=
  ⟨[("p", .folder [("C.vue", .file component),
    ("e", .folder [("l.vue", .link (.ofString "../C.vue"))])])]⟩

/-- The project of the component, just opened. -/
def composed : Session where
  project := .openWith componentDisk ["p"] {} none 0
  host := { disk := componentDisk }

/-- A run that is stopped at once, and the component indexed by the link to it. -/
def linkedEvents : List Event :=
  [.indexAll .zero true (some 0), .indexOne .zero (.ofString "e/l.vue")]

theorem componentDisk_named : componentDisk.Named := by
  refine .folder (by decide) (List.forall_mem_singleton.mpr (.folder (by decide) ?_))
  refine List.forall_mem_cons.mpr ⟨.file component, List.forall_mem_singleton.mpr ?_⟩
  exact .folder (by decide) (List.forall_mem_singleton.mpr (.link (by decide)))

/-- The component has a symbol of its own and a reference in its markup, both under the id of the
file that the link leads to. -/
theorem stamped_of_get?_component :
    ∃ e, (composed.run (parseFile bareGrammars) linkedEvents).project.index.files.get? "C.vue" =
        some e ∧
      e.symbols.length = 1 ∧ e.references.length = 1 ∧ e.Stamped "C.vue" ∧
      ∃ path, ∃ contents ∈ composed.occurring (parseFile bareGrammars) linkedEvents,
        parseFile bareGrammars path contents "C.vue" = .ok (some e) ∧
          e.digest = Digest.fingerprint contents := by
  have hcounts : ((composed.run (parseFile bareGrammars) linkedEvents).project.index.files.get?
      "C.vue").map (fun e => (e.symbols.length, e.references.length)) = some (1, 1) := by
    decide +kernel
  obtain ⟨e, hget, hlengths⟩ := Option.map_eq_some_iff.mp hcounts
  obtain ⟨hsymbols, hreferences⟩ := Prod.mk.inj hlengths
  have hstart : composed.Named := ⟨componentDisk_named, by decide, by decide⟩
  have hevents : ∀ event ∈ linkedEvents, event.IsNamed :=
    List.forall_mem_cons.mpr ⟨trivial, List.forall_mem_singleton.mpr trivial⟩
  exact ⟨e, hget, hsymbols, hreferences, stamped_of_get? hstart rfl hevents hget⟩

end Composite

end Session

end Concordance
