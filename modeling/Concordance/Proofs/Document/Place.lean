import Concordance.Document.Place
import Concordance.Proofs.Chars.Utf8
import Concordance.Proofs.Path
import Concordance.Proofs.Source.Point
import Mathlib.Data.List.Induction

/-!
# Places of a document as bytes

A newline byte is written for the newline character and for no other. So counting the lines and the
bytes of a text gives the position of a place among the bytes of the document
(`positionAt_eq_inSource`), the line of a place is the row of its byte (`lineAt_eq_rowText`), and the
span of a piece of the document covers the bytes of the piece (`covers_spanBetween`).
-/

namespace Concordance

namespace Chars

/-- There is one piece more than separators. -/
theorem length_splitOn (sep : Char) (cs : List Char) :
    (splitOn sep cs).length = cs.count sep + 1 := by
  rw [splitOn_eq, length_pieces]

/-- The first piece goes up to the first separator. -/
theorem getElem?_zero_splitOn (sep : Char) (cs : List Char) :
    (splitOn sep cs)[0]? = some (cs.takeWhile (· != sep)) := by
  induction cs with
  | nil => rfl
  | cons c cs ih =>
      obtain ⟨piece, others, hpieces⟩ := List.exists_cons_of_ne_nil (splitOn_ne_nil sep cs)
      rw [hpieces, List.getElem?_cons_zero, Option.some.injEq] at ih
      rw [splitOn_cons, hpieces]
      by_cases hc : c = sep
      · rw [if_pos (beq_iff_eq.mpr hc), List.takeWhile_cons_of_neg (by simpa using hc)]
        rfl
      · rw [if_neg (fun h => hc (beq_iff_eq.mp h)), List.takeWhile_cons_of_pos (by simpa using hc),
          ← ih]
        rfl

theorem takeWhile_ne_append_of_notMem {sep : Char} {front : List Char} (h : sep ∉ front)
    (back : List Char) :
    (front ++ back).takeWhile (· != sep) = front ++ back.takeWhile (· != sep) :=
  List.takeWhile_append_of_pos fun c hc => by simpa using ne_of_mem_of_not_mem hc h

/-- **The piece of a place**: as many pieces come before it as there are separators before the place,
and it goes from the last of these to the first separator behind. -/
theorem getElem?_count_splitOn (sep : Char) (before after : List Char) :
    (splitOn sep (before ++ after))[before.count sep]? =
      some ((before.reverse.takeWhile (· != sep)).reverse ++ after.takeWhile (· != sep)) := by
  by_cases hsep : sep ∈ before
  · -- cut at the last separator before the place
    obtain ⟨line, front, hsplit, hline⟩ := List.eq_append_cons_of_mem (List.mem_reverse.mpr hsep)
    have hbefore : before = front.reverse ++ sep :: line.reverse := by
      rw [← List.reverse_reverse before, hsplit]
      simp
    have hcount : before.count sep = (splitOn sep front.reverse).length := by
      have hnone : line.reverse.count sep = 0 := List.count_eq_zero.mpr (by simpa using hline)
      rw [length_splitOn, hbefore, List.count_append, List.count_cons_self, hnone, Nat.zero_add]
    have hwhile : (before.reverse.takeWhile (· != sep)).reverse = line.reverse := by
      rw [hsplit, takeWhile_ne_append_of_notMem hline]
      simp
    rw [hcount, hwhile, hbefore, List.append_assoc, List.cons_append, splitOn_append_sep,
      List.getElem?_append_right (Nat.le_refl _), Nat.sub_self, getElem?_zero_splitOn,
      takeWhile_ne_append_of_notMem (by simpa using hline)]
  · have hself : before.reverse.takeWhile (· != sep) = before.reverse := by
      have happend := takeWhile_ne_append_of_notMem (mt List.mem_reverse.mp hsep) []
      simpa using happend
    rw [List.count_eq_zero.mpr hsep, getElem?_zero_splitOn, takeWhile_ne_append_of_notMem hsep, hself,
      List.reverse_reverse]

end Chars

namespace Utf8

/-- A character beyond ASCII is written with bytes beyond ASCII only. -/
theorem le_toNat_of_mem_encodeChar {c : Char} (hc : 0x7f < c.val.toNat) {b : UInt8}
    (hb : b ∈ String.utf8EncodeChar c) : 0x80 ≤ b.toNat := by
  have hbyte : ∀ n, n < 0x80 → 0x80 ≤ (UInt8.ofNat (n + 0x80)).toNat := by
    intro n hn
    rw [toNat_ofNat_of_lt (by omega)]
    omega
  unfold String.utf8EncodeChar at hb
  dsimp only at hb
  rw [if_neg (by omega)] at hb
  split at hb
  · simp only [List.mem_cons, List.not_mem_nil, or_false] at hb
    rcases hb with rfl | rfl
    · exact hbyte (_ + 0x40) (by omega)
    · exact hbyte _ (by omega)
  · split at hb
    · simp only [List.mem_cons, List.not_mem_nil, or_false] at hb
      rcases hb with rfl | rfl | rfl
      · exact hbyte (_ + 0x60) (by omega)
      · exact hbyte _ (by omega)
      · exact hbyte _ (by omega)
    · simp only [List.mem_cons, List.not_mem_nil, or_false] at hb
      rcases hb with rfl | rfl | rfl | rfl
      · exact hbyte (_ + 0x70) (by omega)
      · exact hbyte _ (by omega)
      · exact hbyte _ (by omega)
      · exact hbyte _ (by omega)

/-- Only the newline is written with a newline byte. -/
theorem newline_mem_encodeChar {c : Char} :
    Source.newline ∈ String.utf8EncodeChar c ↔ c = '\n' := by
  constructor
  · intro h
    by_cases hc : 0x7f < c.val.toNat
    · have hle := le_toNat_of_mem_encodeChar hc h
      exact absurd hle (by decide)
    · have hascii : String.utf8EncodeChar c = [UInt8.ofNat c.val.toNat] := if_pos (by omega)
      rw [hascii] at h
      have hnat := congrArg UInt8.toNat (List.mem_singleton.mp h)
      rw [toNat_ofNat_of_lt (by omega)] at hnat
      exact Char.ext (UInt32.toNat_inj.mp hnat.symm)
  · rintro rfl
    decide

end Utf8

namespace Document

/-- The bytes of two texts add up. -/
@[simp]
theorem byteLength_append (cs ds : List Char) :
    byteLength (cs ++ ds) = byteLength cs + byteLength ds := by
  rw [byteLength, Utf8.encode_append, List.length_append, byteLength, byteLength]

/-- The point after the bytes of a text: its lines, and the bytes of its last line. -/
theorem endPoint_encode (cs : List Char) :
    Source.endPoint (Utf8.encode cs) =
      ⟨cs.count '\n', byteLength (cs.reverse.takeWhile (· != '\n')).reverse⟩ := by
  induction cs using List.reverseRecOn with
  | nil => rfl
  | append_singleton cs c ih =>
      have hbytes : Utf8.encode [c] = String.utf8EncodeChar c := by simp
      rw [Utf8.encode_append, Source.endPoint_append, ih, hbytes, List.count_append,
        List.reverse_append, List.reverse_singleton, List.singleton_append]
      by_cases hc : c = '\n'
      · subst hc
        rw [if_pos (Utf8.newline_mem_encodeChar.mpr rfl)]
        rfl
      · have hcount : [c].count '\n' = 0 := by simp [hc]
        have hwhile : (c :: cs.reverse).takeWhile (· != '\n') =
            c :: cs.reverse.takeWhile (· != '\n') :=
          List.takeWhile_cons_of_pos (by simpa using hc)
        rw [if_neg (mt Utf8.newline_mem_encodeChar.mp hc), hwhile, List.reverse_cons,
          byteLength_append, hcount, Nat.add_zero, ← hbytes]
        rfl

/-- **Places are bytes.** The position of a place is that of the byte at which it stands. -/
theorem positionAt_eq_inSource (text : List Char) (place : Nat) :
    positionAt text place =
      .inSource (Utf8.encode text) (byteLength (text.take place)) := by
  have hsplit : Utf8.encode text =
      Utf8.encode (text.take place) ++ Utf8.encode (text.drop place) := by
    rw [← Utf8.encode_append, List.take_append_drop]
  rw [Position.inSource, hsplit, byteLength, Source.pointAt_append_left, endPoint_encode]
  rfl

/-- A longer beginning has no fewer bytes. -/
theorem byteLength_take_le {text : List Char} {m n : Nat} (h : m ≤ n) :
    byteLength (text.take m) ≤ byteLength (text.take n) := by
  obtain ⟨rest, hrest⟩ := List.take_prefix_take_left (l := text) h
  rw [← hrest, byteLength_append]
  exact Nat.le_add_right _ _

/-- **Lines are rows.** The line of a place is the row of the byte at which it stands. -/
theorem lineAt_eq_rowText (text : List Char) (place : Nat) :
    .ofList (lineAt text place) = Source.rowText (Utf8.encode text)
      (Source.pointAt (Utf8.encode text) (byteLength (text.take place))).row := by
  have hrow : (Source.pointAt (Utf8.encode text) (byteLength (text.take place))).row =
      (text.take place).count '\n' := by
    have hline := congrArg Position.line (positionAt_eq_inSource text place)
    simp only [positionAt, Position.inSource] at hline
    omega
  have hpiece := Chars.getElem?_count_splitOn '\n' (text.take place) (text.drop place)
  rw [List.take_append_drop] at hpiece
  rw [hrow, Source.rowText, Utf8.decode_encode, hpiece]
  rfl

end Document

/-- A span of a document covers a text: its ends are the positions of two bytes of the document, and
the bytes between them are those of the text. -/
structure Span.Covers (document text : List Char) (s : Span) : Prop where
  start_eq : s.start = .inSource (Utf8.encode document) s.start.byteOffset.toNat
  stop_eq : s.stop = .inSource (Utf8.encode document) s.stop.byteOffset.toNat
  start_le : s.start.byteOffset.toNat ≤ s.stop.byteOffset.toNat
  stop_le : s.stop.byteOffset.toNat ≤ (Utf8.encode document).length
  decoded : Utf8.decode? (Source.slice (Utf8.encode document) s.start.byteOffset.toNat
    s.stop.byteOffset.toNat) = some text

/-- A span covers one text only. -/
theorem Span.Covers.unique {document a b : List Char} {s : Span} (ha : s.Covers document a)
    (hb : s.Covers document b) : a = b :=
  Option.some.inj (ha.decoded.symm.trans hb.decoded)

namespace Document

/-- **The span of a piece covers it.** -/
theorem covers_spanBetween {text before piece after : List Char} {place : Nat}
    (htext : text = before ++ piece ++ after) (hplace : before.length = place) :
    (spanBetween text place (place + piece.length)).Covers text piece := by
  subst htext hplace
  have hstart : (before ++ piece ++ after).take before.length = before := by
    rw [List.append_assoc, List.take_left]
  have hstop : (before ++ piece ++ after).take (before.length + piece.length) = before ++ piece := by
    rw [← List.length_append, List.take_left]
  rw [spanBetween, positionAt_eq_inSource, positionAt_eq_inSource, hstart, hstop]
  refine ⟨rfl, rfl, ?_, ?_, ?_⟩
  · change byteLength before ≤ byteLength (before ++ piece)
    rw [byteLength_append]
    exact Nat.le_add_right _ _
  · change byteLength (before ++ piece) ≤ byteLength (before ++ piece ++ after)
    rw [byteLength_append _ after]
    exact Nat.le_add_right _ _
  · change Utf8.decode? (Source.slice _ (byteLength before) (byteLength (before ++ piece))) = _
    rw [byteLength_append, Utf8.encode_append, Utf8.encode_append, byteLength, byteLength,
      Source.slice_append, Utf8.decode?_encode]

end Document

end Concordance
