import Concordance.Disk.Resolve
import Concordance.Proofs.Path

/-!
# Plain disks

A disk is *plain* if it has no links and every entry stands under a name. On a plain disk a path leads
where going along its names arrives (`Plain.advance_of_locate`). A path to a file then ends with the
name under which the file stands (`Plain.getLast?_of_file`).
-/

namespace Concordance

namespace Entry

/-- Going along two ways one after the other. -/
theorem at?_append (way rest : List String) (entries : List (String × Entry)) :
    at? (way ++ rest) entries =
      match at? way entries with
      | some (.folder inner) => at? rest inner
      | some e => if rest.isEmpty then some e else none
      | none => none := by
  induction way generalizing entries with
  | nil => simp [at?]
  | cons name way ih =>
      rw [List.cons_append, at?, at?]
      cases hl : entries.lookup name with
      | none => rfl
      | some e =>
          cases e with
          | folder inner => exact ih inner
          | file contents => cases way <;> simp
          | link target => cases way <;> simp

/-- What stands in a folder under a name. -/
theorem at?_concat {way : List String} {entries inner : List (String × Entry)}
    (h : at? way entries = some (.folder inner)) (name : String) :
    at? (way ++ [name]) entries = inner.lookup name := by
  rw [at?_append, h]
  dsimp only
  rw [at?]
  cases hl : inner.lookup name with
  | none => rfl
  | some e => cases e <;> simp [at?]

/-- Whatever stands on a disk stands in a folder. -/
theorem exists_folder_of_concat {way : List String} {name : String}
    {entries : List (String × Entry)} {e : Entry} (h : at? (way ++ [name]) entries = some e) :
    ∃ inner, at? way entries = some (.folder inner) := by
  rw [at?_append] at h
  split at h
  · next inner hway => exact ⟨inner, hway⟩
  · simp at h
  · simp at h

mutual

/-- Whether an entry has no links in it and only names. -/
def isPlain : Entry → Bool
  | .file _ => true
  | .link _ => false
  | .folder entries => allPlain entries

/-- Whether all entries of a folder are plain and stand under names. -/
def allPlain : List (String × Entry) → Bool
  | [] => true
  | f :: rest => isPlainUnder f && allPlain rest

/-- Whether an entry is plain and stands under a name. -/
def isPlainUnder : String × Entry → Bool
  | (name, e) => decide (Path.IsName name) && e.isPlain

end

/-- What a folder of plain entries holds is plain and stands under a name. -/
theorem plain_of_lookup {entries : List (String × Entry)} (h : allPlain entries) {name : String}
    {e : Entry} (hl : entries.lookup name = some e) : Path.IsName name ∧ e.isPlain := by
  induction entries with
  | nil => cases hl
  | cons f entries ih =>
      obtain ⟨m, g⟩ := f
      simp only [allPlain, isPlainUnder, Bool.and_eq_true, decide_eq_true_eq] at h
      rw [List.lookup_cons] at hl
      split at hl
      · next hm =>
        cases hl
        exact ⟨(beq_iff_eq.mp hm) ▸ h.1.1, h.1.2⟩
      · exact ih h.2 hl

/-- All that can be reached from plain entries is plain, along names. -/
theorem plain_of_at? {way : List String} : ∀ {entries : List (String × Entry)} {e : Entry},
    allPlain entries → at? way entries = some e → e.isPlain ∧ ∀ n ∈ way, Path.IsName n := by
  induction way with
  | nil =>
      intro entries e h hat
      cases hat
      exact ⟨h, by simp⟩
  | cons name way ih =>
      intro entries e h hat
      rw [at?] at hat
      split at hat
      · next inner hl =>
        obtain ⟨hname, hinner⟩ := plain_of_lookup h hl
        obtain ⟨he, hway⟩ := ih hinner hat
        exact ⟨he, List.forall_mem_cons.mpr ⟨hname, hway⟩⟩
      · next g _ hl =>
        obtain ⟨hname, hg⟩ := plain_of_lookup h hl
        split at hat
        · next hway =>
          cases hat
          rw [List.isEmpty_iff.mp hway]
          exact ⟨hg, by simpa using hname⟩
        · cases hat
      · cases hat

end Entry

namespace Disk

/-- No links, and every entry under a name. -/
structure Plain (d : Disk) : Prop where
  noLink : ∀ way target, d.at? way ≠ some (.link target)
  names : ∀ {way e}, d.at? way = some e → ∀ n ∈ way, Path.IsName n

/-- A disk whose entries all pass the check for plain ones is plain. -/
theorem plain_of_allPlain {d : Disk} (h : Entry.allPlain d.top) : d.Plain where
  noLink way target hat := by
    have hplain := (Entry.plain_of_at? h hat).1
    simp [Entry.isPlain] at hplain
  names hat := (Entry.plain_of_at? h hat).2

/-- The folder around an entry, or around the top itself, is a folder. -/
theorem exists_folder_dropLast {d : Disk} {way : List String} {e : Entry}
    (h : d.at? way = some e) : ∃ inner, d.at? way.dropLast = some (.folder inner) := by
  rcases List.eq_nil_or_concat' way with rfl | ⟨before, name, rfl⟩
  · exact ⟨d.top, rfl⟩
  · rw [List.dropLast_concat]
    exact Entry.exists_folder_of_concat h

/-- One name further on a plain disk: there is no link to stop at. -/
theorem Plain.lookup_ne_link {d : Disk} (hd : d.Plain) {way : List String}
    {inner : List (String × Entry)} (h : d.at? way = some (.folder inner)) (name : String)
    (target : Path) : inner.lookup name ≠ some (.link target) := by
  intro hl
  apply hd.noLink (way ++ [name]) target
  rw [Disk.at?, Entry.at?_concat h, hl]

/-- On a plain disk going along a path never meets a link. -/
theorem Plain.advance_ne_link {d : Disk} (hd : d.Plain) (names : List String) :
    ∀ way stop target rest, d.advance way names ≠ .link stop target rest := by
  induction names with
  | nil => intro way stop target rest; simp [advance]
  | cons name names ih =>
      intro way stop target rest
      rw [advance]
      split
      · next inner hway =>
        split
        · exact ih _ _ _ _
        · split
          · simp
          · next t hl => exact absurd hl (hd.lookup_ne_link hway name t)
          · exact ih _ _ _ _
      · simp

/-- On a plain disk a path leads where going along its names arrives. -/
theorem Plain.advance_of_locate {d : Disk} (hd : d.Plain) {names way : List String}
    (h : d.locate names = .ok way) : d.advance [] names = .arrived way := by
  rw [locate, linkBound, follow] at h
  split at h
  · next w hw => rw [hw, Except.ok.inj h]
  · next w target rest hw => exact absurd hw (hd.advance_ne_link names [] w target rest)
  · cases h

/-- A path that arrives at a file ends with the name of the file. -/
theorem getLast?_of_advance {d : Disk} {names : List String} :
    ∀ {way stop : List String} {contents : Bytes}, names ≠ [] →
      d.advance way names = .arrived stop → d.at? stop = some (.file contents) →
      names.getLast? = stop.getLast? := by
  induction names with
  | nil => intro way stop contents hne; exact absurd rfl hne
  | cons name names ih =>
      intro way stop contents _ h hfile
      rw [advance] at h
      split at h
      · next inner hway =>
        cases names with
        | cons second names =>
            rw [List.getLast?_cons_cons]
            split at h
            · exact ih (by simp) h hfile
            · split at h
              · cases h
              · cases h
              · exact ih (by simp) h hfile
        | nil =>
            split at h
            · cases h
              obtain ⟨outer, houter⟩ := exists_folder_dropLast hway
              rw [houter] at hfile
              cases hfile
            · split at h
              · cases h
              · cases h
              · cases h
                simp
      · cases h

/-- On a plain disk a path to a file ends with the name under which the file stands. -/
theorem Plain.getLast?_of_file {d : Disk} (hd : d.Plain) {names way : List String}
    {contents : Bytes} (h : d.locate names = .ok way) (hfile : d.at? way = some (.file contents)) :
    names.getLast? = way.getLast? := by
  have hadv := hd.advance_of_locate h
  apply getLast?_of_advance ?_ hadv hfile
  rintro rfl
  cases hadv
  simp [Disk.at?, Entry.at?] at hfile

/-- The contents read at a path are those of a file at the end of the path. -/
theorem exists_way_of_read? {d : Disk} {names : List String} {contents : Bytes}
    (h : d.read? names = some contents) :
    ∃ way, d.locate names = .ok way ∧ d.at? way = some (.file contents) := by
  unfold read? entry? at h
  split at h
  · next c hentry =>
    split at hentry
    · next way hway =>
      cases h
      exact ⟨way, hway, hentry⟩
    · cases hentry
  · cases h

end Disk

end Concordance
