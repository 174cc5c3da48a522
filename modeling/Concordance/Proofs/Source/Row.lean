import Concordance.Proofs.Document.Place
import Concordance.Proofs.Extract.Span

/-!
# Rows of a source and lines of its text

The rows of a source are the bytes between its newline bytes, the lines of its text are the characters
between its newlines. Both are the same, also where the source is not well-formed: a newline byte is no
part of any longer sequence, so it gives up the sequence before it and is read as a newline
(`Utf8.step_newline`), and from other bytes no newline is made (`Utf8.newline_notMem_decode`). So the
lines of a text are the texts of the rows (`Utf8.splitOn_decode`), and what a reference shows is the row
on which it starts (`Extract.contexts_of_parseSource`).
-/

namespace Concordance

namespace Utf8

/-! ### What one byte does to any text -/

/-- A sequence that belongs to no ASCII character: its next byte lies beyond ASCII, and with that byte
its value is too great to end as one. -/
structure Pending.BeyondAscii (p : Pending) : Prop where
  byte : 0x80 ≤ p.low
  next : 2 ≤ p.value * 64 + (p.low - 0x80)
  last : p.lacking = 1 → 2 ≤ p.value

/-- The sequence begun, if there is one, belongs to no ASCII character. -/
def State.Regular (s : State) : Prop :=
  ∀ p ∈ s.pending, p.BeyondAscii

theorem State.regular_none (out : List Char) (sound : Bool) : Regular ⟨out, none, sound⟩ :=
  fun _ hp => absurd hp (by simp)

theorem State.regular_some {out : List Char} {p : Pending} {sound : Bool} (hp : p.BeyondAscii) :
    Regular ⟨out, some p, sound⟩ :=
  fun _ hq => Option.some.inj hq ▸ hp

/-- A byte that begins a sequence lies beyond ASCII, and so does what it begins. -/
theorem Begins.beyondAscii {b : UInt8} {p : Pending} (h : Begins b p) :
    0x80 ≤ b.toNat ∧ p.BeyondAscii := by
  cases h with
  | two hb hlow hhigh => exact ⟨by omega, Nat.le_refl _, by dsimp only; omega, fun _ => hlow⟩
  | three hb hhigh =>
      refine ⟨by omega, ?_, ?_, fun h => absurd h (by simp)⟩
      · dsimp only
        split <;> omega
      · dsimp only
        split <;> omega
  | four hb hhigh =>
      refine ⟨by omega, ?_, ?_, fun h => absurd h (by simp)⟩
      · dsimp only
        split <;> omega
      · dsimp only
        split <;> omega

/-- Only one number is that of the newline. -/
theorem ofNat_ne_newline {n : Nat} (h : n ≠ 10) : Char.ofNat n ≠ '\n' := by
  intro heq
  by_cases hvalid : n.isValidChar
  · have hval := val_ofNat hvalid
    rw [heq] at hval
    exact h hval.symm
  · rw [Char.ofNat, dif_neg hvalid] at heq
    exact absurd heq (by decide)

/-- What a byte beyond ASCII leaves: no sequence of an ASCII character, and no newline that was not
there. -/
structure Extends (s s' : State) : Prop where
  regular : s'.Regular
  written : ∃ new, s'.out = new ++ s.out ∧ '\n' ∉ new

/-- A byte when no sequence is begun. -/
theorem step_none_extends (out : List Char) (sound : Bool) (b : UInt8) :
    (b.toNat < 0x80 ∧ step ⟨out, none, sound⟩ b = ⟨.ofNat b.toNat :: out, none, sound⟩) ∨
      0x80 ≤ b.toNat ∧ Extends ⟨out, none, sound⟩ (step ⟨out, none, sound⟩ b) := by
  rcases step_none_cases out sound b with hone | ⟨hb, hstep⟩ | ⟨p, hbegins, hstep⟩
  · exact .inl hone
  · rw [hstep]
    exact .inr ⟨hb, State.regular_none _ _, [replacement], rfl, by decide⟩
  · obtain ⟨hb, hp⟩ := hbegins.beyondAscii
    rw [hstep]
    exact .inr ⟨hb, State.regular_some hp, [], rfl, by simp⟩

/-- A byte of the sequence begun. -/
theorem Pending.BeyondAscii.step_extends {p : Pending} (hp : p.BeyondAscii) {b : UInt8}
    (hrange : p.low ≤ b.toNat ∧ b.toNat ≤ p.high) (out : List Char) (sound : Bool) :
    Extends ⟨out, some p, sound⟩ (step ⟨out, some p, sound⟩ b) := by
  obtain ⟨hbyte, hnext, hlast⟩ := hp
  rw [step]
  dsimp only
  rw [if_pos (by simpa using hrange)]
  by_cases hlacking : p.lacking = 1
  · have hvalue := hlast hlacking
    rw [if_pos (by simpa using hlacking)]
    refine ⟨State.regular_none _ _, [_], rfl, ?_⟩
    simpa using (ofNat_ne_newline (by omega)).symm
  · rw [if_neg (by simpa using hlacking)]
    refine ⟨State.regular_some ⟨Nat.le_refl _, ?_, fun _ => ?_⟩, [], rfl, by simp⟩
    · dsimp only
      omega
    · dsimp only
      omega

/-- **What one byte does.** An ASCII byte ends the sequence begun, if there is one, and is written as
itself; any other byte writes no newline. -/
theorem State.Regular.step_cases {s : State} (h : s.Regular) (b : UInt8) :
    (b.toNat < 0x80 ∧
      step s b = ⟨.ofNat b.toNat :: (abandon s).out, none, (abandon s).sound⟩) ∨
      0x80 ≤ b.toNat ∧ Extends s (step s b) := by
  obtain ⟨out, pending, sound⟩ := s
  cases pending with
  | none => exact step_none_extends out sound b
  | some p =>
      have hp : p.BeyondAscii := h p rfl
      by_cases hrange : p.low ≤ b.toNat ∧ b.toNat ≤ p.high
      · exact .inr ⟨Nat.le_trans hp.byte hrange.1, hp.step_extends hrange out sound⟩
      · -- the byte is looked at afresh, behind a replacement
        rw [step_out_of_range hrange]
        rcases step_none_extends (replacement :: out) false b with
          hone | ⟨hb, hregular, new, hout, hnew⟩
        · exact .inl hone
        · refine .inr ⟨hb, hregular, new ++ [replacement], by rw [hout]; simp, ?_⟩
          simpa using ⟨hnew, by decide⟩

/-- A newline byte gives up the sequence begun, and is read as a newline. -/
theorem step_newline {s : State} (h : s.Regular) :
    step s Source.newline = ⟨'\n' :: (abandon s).out, none, (abandon s).sound⟩ := by
  rcases h.step_cases Source.newline with ⟨-, hstep⟩ | ⟨hb, -⟩
  · exact hstep
  · exact absurd hb (by decide)

/-- One byte keeps a state regular. -/
theorem State.Regular.step {s : State} (h : s.Regular) (b : UInt8) : (step s b).Regular := by
  rcases h.step_cases b with ⟨-, hstep⟩ | ⟨-, hextends⟩
  · rw [hstep]
    exact regular_none _ _
  · exact hextends.regular

theorem newline_mem_abandon {s : State} : '\n' ∈ (abandon s).out ↔ '\n' ∈ s.out := by
  obtain ⟨out, pending, sound⟩ := s
  cases pending with
  | none => rfl
  | some p => simp [abandon, replacement]

/-- From any other byte no newline is made. -/
theorem newline_notMem_step {s : State} (h : s.Regular) (hout : '\n' ∉ s.out) {b : UInt8}
    (hb : b ≠ Source.newline) : '\n' ∉ (step s b).out := by
  rcases h.step_cases b with ⟨-, hstep⟩ | ⟨-, -, new, hwritten, hnew⟩
  · have hne : b.toNat ≠ 10 := fun heq => hb (UInt8.toNat_inj.mp heq)
    rw [hstep]
    simpa using ⟨(ofNat_ne_newline hne).symm, mt newline_mem_abandon.mp hout⟩
  · rw [hwritten]
    simpa using ⟨hnew, hout⟩

/-! ### All bytes -/

/-- So do all bytes. -/
theorem State.Regular.foldl_step {s : State} (h : s.Regular) (bytes : Bytes) :
    (bytes.foldl Utf8.step s).Regular := by
  induction bytes generalizing s with
  | nil => exact h
  | cons b bytes ih => exact ih (h.step b)

/-- Bytes without a newline are read as a text without one. -/
theorem newline_notMem_foldl_step {s : State} (h : s.Regular) (hout : '\n' ∉ s.out) {bytes : Bytes}
    (hbytes : Source.newline ∉ bytes) : '\n' ∉ (bytes.foldl step s).out := by
  induction bytes generalizing s with
  | nil => exact hout
  | cons b bytes ih =>
      rw [List.mem_cons, not_or] at hbytes
      exact ih (h.step b) (newline_notMem_step h hout (Ne.symm hbytes.1)) hbytes.2

/-- **No newline is made** from bytes without a newline byte. -/
theorem newline_notMem_decode {bytes : Bytes} (h : Source.newline ∉ bytes) : '\n' ∉ decode bytes := by
  rw [decode, List.mem_reverse, run, newline_mem_abandon]
  exact newline_notMem_foldl_step (State.regular_none _ _) List.not_mem_nil h

/-- A reader has written the same as another one behind an older text, and is in the middle of the same
sequence. -/
structure Follows (older : List Char) (s s' : State) : Prop where
  out : s'.out = s.out ++ older
  pending : s'.pending = s.pending

theorem Follows.abandon {older : List Char} {s s' : State} (h : Follows older s s') :
    Follows older (abandon s) (abandon s') := by
  unfold Utf8.abandon
  rw [h.pending]
  split
  · exact h
  · exact ⟨congrArg (replacement :: ·) h.out, rfl⟩

theorem Follows.begin {older : List Char} {s s' : State} (h : Follows older s s') (b : Nat) :
    Follows older (begin s b) (begin s' b) := by
  unfold Utf8.begin
  repeat' split
  all_goals exact ⟨by simp [h.out], rfl⟩

/-- What was written before has no part in how a byte is read. -/
theorem Follows.step {older : List Char} {s s' : State} (h : Follows older s s') (b : UInt8) :
    Follows older (step s b) (step s' b) := by
  unfold Utf8.step
  dsimp only
  rw [h.pending]
  split
  · exact h.begin _
  · split
    · split
      · exact ⟨by simp [h.out], rfl⟩
      · exact ⟨h.out, rfl⟩
    · exact h.abandon.begin _

/-- A state that follows another one follows it through all bytes. -/
theorem Follows.foldl_step {older : List Char} {s s' : State} (h : Follows older s s')
    (bytes : Bytes) : Follows older (bytes.foldl Utf8.step s) (bytes.foldl Utf8.step s') := by
  induction bytes generalizing s s' with
  | nil => exact h
  | cons b bytes ih => exact ih (h.step b)

/-- **A newline byte cuts the text**, whatever stands before and behind it. -/
theorem decode_append_newline (front back : Bytes) :
    decode (front ++ Source.newline :: back) = decode front ++ '\n' :: decode back := by
  have hregular := (State.regular_none [] true).foldl_step front
  rw [decode, decode, decode, run, run, run, List.foldl_append, List.foldl_cons,
    step_newline hregular]
  generalize Utf8.abandon (front.foldl step ⟨[], none, true⟩) = s
  have hstart : Follows ('\n' :: s.out) ⟨[], none, true⟩ ⟨'\n' :: s.out, none, s.sound⟩ := ⟨rfl, rfl⟩
  rw [(hstart.foldl_step back).abandon.out]
  simp

/-- **Lines are the texts of rows.** To replace what is ill-formed in the whole and to cut the text at
its newlines is to cut the bytes and to replace in each row. -/
theorem splitOn_decode (bytes : Bytes) :
    (decode bytes).splitOn '\n' = (bytes.splitOn Source.newline).map decode := by
  -- by the length: what follows the first newline byte is shorter
  induction hlength : bytes.length using Nat.strong_induction_on generalizing bytes with
  | h n ih =>
      by_cases hmem : Source.newline ∈ bytes
      · obtain ⟨front, back, rfl, hfront⟩ := List.eq_append_cons_of_mem hmem
        have hshorter : back.length < n := by
          rw [← hlength, List.length_append, List.length_cons]
          omega
        rw [decode_append_newline,
          List.splitOn_append_cons_self_of_not_mem (newline_notMem_decode hfront),
          List.splitOn_append_cons_self_of_not_mem hfront, List.map_cons, ih _ hshorter back rfl]
      · rw [List.splitOn_eq_singleton (newline_notMem_decode hmem), List.splitOn_eq_singleton hmem,
          List.map_singleton]

end Utf8

/-! ### Rows -/

namespace Source

/-- The rows of a source: the bytes between its newline bytes. -/
def rows (source : Bytes) : List Bytes :=
  source.splitOn newline

/-- **The text of a row** is that of its bytes, without the blanks around it. -/
theorem rowText_eq {source line : Bytes} {row : Nat} (h : (rows source)[row]? = some line) :
    rowText source row = Text.strip (Utf8.text line) := by
  have hline : (Chars.splitOn '\n' (Utf8.decode source))[row]? = some (Utf8.decode line) := by
    rw [Chars.splitOn_eq, Utf8.splitOn_decode, List.getElem?_map, ← rows, h, Option.map_some]
  rw [rowText, hline, Text.strip, Utf8.text, String.toList_ofList]

/-- Every byte, and every place behind them, is on some row. -/
theorem exists_row (source : Bytes) (offset : Nat) :
    ∃ line, (rows source)[(source.take offset).count newline]? = some line := by
  have hle := (List.take_sublist offset source).count_le newline
  have hlt : (source.take offset).count newline < (rows source).length := by
    rw [rows, Chars.length_pieces]
    omega
  exact ⟨_, List.getElem?_eq_getElem hlt⟩

end Source

namespace Extract

variable {ctx : Context}

/-- A reference shows the row of a source on which it starts: as many rows come before it as newline
bytes before the start of the reference, and the context is the text of the row without the blanks
around it. -/
def ShowsRow (source : Bytes) (u : Reference) : Prop :=
  ∃ (row : Nat) (line : Bytes),
    row = (source.take u.span.start.byteOffset.toNat).count Source.newline ∧
      u.span.start.line = row + 1 ∧ (Source.rows source)[row]? = some line ∧
      u.context = Text.strip (Utf8.text line)

/-- A reference shows the row in which it stands. -/
theorem ReferredIn.showsRow {t : Tree} {u : Reference} (h : ReferredIn ctx t u) :
    ShowsRow ctx.source u := by
  obtain ⟨name, -, kind, rfl⟩ := h
  obtain ⟨line, hline⟩ := Source.exists_row ctx.source name.start
  exact ⟨_, line, rfl, rfl, hline, Source.rowText_eq hline⟩

/-- **Contexts are rows of the source, also of one that is not well-formed.** Let a source be any bytes.
Every reference that is read from it, with any tree and in any family, shows the row on which it
starts: the text of the bytes between two newline bytes, ill-formed sequences replaced, without the
blanks around it. For the text of the whole source, cut at its newlines, is made of the texts of its
rows. -/
theorem contexts_of_parseSource {grammars : Grammars} {grammar : String} {e : Extraction}
    (h : parseSource grammars grammar ctx = .ok (some e)) :
    (∀ u ∈ e.references, ShowsRow ctx.source u) ∧
      (Utf8.decode ctx.source).splitOn '\n' = (Source.rows ctx.source).map Utf8.decode := by
  obtain ⟨t, -, hextract⟩ := extract_of_parseSource h
  exact ⟨fun u hu => (referredIn_of_mem_extract hextract hu).showsRow, Utf8.splitOn_decode _⟩

section Broken

/-- Two calls. A sequence of three bytes breaks off at the end of the first row, and a slash is written
too long in the second. -/
def brokenSource : Bytes :=
  [0x61, 0x28, 0x29, 0xe2, 0x82, 0x0a, 0x20, 0xc0, 0xaf, 0x62, 0x28, 0x29]

/-- The tree of the two calls. -/
def brokenTree : Tree :=
  spanned "program" 0 12 none
    [spanned "call_expression" 0 3 none
      [spanned "identifier" 0 1 (some "function") [], spanned "arguments" 1 3 (some "arguments") []],
     spanned "call_expression" 9 12 none
      [spanned "identifier" 9 10 (some "function") [],
       spanned "arguments" 10 12 (some "arguments") []]]

/-- What is known of the two calls. -/
def brokenContext : Context where
  source := brokenSource
  file := "a.js"
  language := "javascript"
  family := .ecmascript

/-- The grammar of the two calls. -/
def brokenGrammars : Grammars where
  isMissing _ := false
  tree? _ _ := some brokenTree

/-- What is read off the two calls. -/
def brokenExtraction : Extraction :=
  ((parseSource brokenGrammars "javascript" brokenContext).toOption.bind id).getD {}

theorem parseSource_broken :
    parseSource brokenGrammars "javascript" brokenContext = .ok (some brokenExtraction) := by
  decide +kernel

/-- The sequence that breaks off does not swallow the newline. -/
theorem contexts_of_parseSource_broken :
    brokenExtraction.references.map Reference.context = ["a()\uFFFD", "\uFFFD\uFFFDb()"] ∧
      Source.rows brokenSource =
        [[0x61, 0x28, 0x29, 0xe2, 0x82], [0x20, 0xc0, 0xaf, 0x62, 0x28, 0x29]] ∧
      brokenExtraction.references.Forall (ShowsRow brokenSource) ∧
      (Utf8.decode brokenSource).splitOn '\n' = (Source.rows brokenSource).map Utf8.decode := by
  obtain ⟨hshows, hlines⟩ := contexts_of_parseSource parseSource_broken
  exact ⟨by decide +kernel, by decide +kernel, List.forall_iff_forall_mem.mpr hshows, hlines⟩

end Broken

end Extract

end Concordance
