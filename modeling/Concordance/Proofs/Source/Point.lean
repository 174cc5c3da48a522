import Concordance.Record.Position
import Mathlib.Data.List.TakeWhile

/-!
# Points and positions

The point of a byte depends only on the bytes before it: it is the point after them. Bytes that are
added move that point on, along its row if there is no newline among them, else to the last of
their rows (`Source.endPoint_append`). It follows that a later byte has no earlier position
(`Position.notAfter_inSource`, `Position.not_before_inSource`).
-/

namespace Concordance

namespace Source

/-- The point after some bytes. -/
def endPoint (bytes : Bytes) : Point :=
  ⟨bytes.count newline, (bytes.reverse.takeWhile (· != newline)).length⟩

/-- The point at an offset is the end of the bytes before it. -/
theorem pointAt_eq_endPoint {source : Bytes} {offset : Nat} (h : offset ≤ source.length) :
    pointAt source offset = endPoint (source.take offset) := by
  have hlen : (source.take offset).length = offset := List.length_take_of_le h
  have hcolumn : ((source.take offset).reverse.takeWhile (· != newline)).length ≤ offset := by
    have hle := (List.takeWhile_sublist (l := (source.take offset).reverse)
      (· != newline)).length_le
    rw [List.length_reverse, hlen] at hle
    exact hle
  have hcancel : offset - rowStart source offset =
      ((source.take offset).reverse.takeWhile (· != newline)).length := by
    unfold rowStart
    dsimp only
    omega
  rw [pointAt, endPoint, hcancel]

/-- The point of a byte with the bytes before it given. -/
theorem pointAt_append_left (before after : Bytes) :
    pointAt (before ++ after) before.length = endPoint before := by
  rw [pointAt_eq_endPoint (by simp), List.take_left]

/-- **Bytes that are added** move the point on: along its row, or to the last of their own rows. -/
theorem endPoint_append (before after : Bytes) :
    endPoint (before ++ after) =
      if newline ∈ after then
        ⟨(endPoint before).row + (endPoint after).row, (endPoint after).column⟩
      else ⟨(endPoint before).row, (endPoint before).column + after.length⟩ := by
  unfold endPoint
  rw [List.count_append, List.reverse_append]
  by_cases hnl : newline ∈ after
  · have hstop : (after.reverse.takeWhile (· != newline)).length ≠ after.reverse.length := by
      intro hlen
      have hself := (List.takeWhile_prefix (· != newline)).eq_of_length hlen
      have hne := List.takeWhile_eq_self_iff.mp hself newline (List.mem_reverse.mpr hnl)
      simp at hne
    rw [if_pos hnl, List.takeWhile_append, if_neg hstop]
  · have hall : ∀ b ∈ after.reverse, (b != newline) = true := by
      intro b hb
      have hne : b ≠ newline := fun heq => hnl (heq ▸ List.mem_reverse.mp hb)
      simpa using hne
    rw [if_neg hnl, List.takeWhile_append_of_pos hall, List.count_eq_zero_of_not_mem hnl]
    simp [Nat.add_comm]

/-- The points of two bytes: the later one is on a later row, or on the same row and to the right by
the bytes between them. -/
theorem pointAt_le {source : Bytes} {a b : Nat} (hab : a ≤ b) (hb : b ≤ source.length) :
    (pointAt source a).row < (pointAt source b).row ∨
      (pointAt source a).row = (pointAt source b).row ∧
        (pointAt source b).column = (pointAt source a).column + (b - a) := by
  have hsplit : source.take b = source.take a ++ (source.drop a).take (b - a) := by
    rw [← List.take_add, Nat.add_sub_cancel' hab]
  have hlen : ((source.drop a).take (b - a)).length = b - a := by
    rw [List.length_take, List.length_drop]
    omega
  rw [pointAt_eq_endPoint hb, pointAt_eq_endPoint (hab.trans hb), hsplit, endPoint_append]
  split
  · next hnl =>
    have hpos : 0 < (endPoint ((source.drop a).take (b - a))).row := List.count_pos_iff.mpr hnl
    left
    dsimp only
    omega
  · right
    exact ⟨rfl, by rw [hlen]⟩

/-- Behind the end of a source the row goes on. -/
theorem pointAt_of_length_le {source : Bytes} {offset : Nat} (h : source.length ≤ offset) :
    (pointAt source offset).row = (pointAt source source.length).row ∧
      (pointAt source offset).column =
        (pointAt source source.length).column + (offset - source.length) := by
  have htake : source.take offset = source.take source.length := by
    rw [List.take_of_length_le h, List.take_length]
  have hstart : rowStart source offset = rowStart source source.length := by
    unfold rowStart
    rw [htake]
  have hle : rowStart source source.length ≤ source.length := by
    unfold rowStart
    dsimp only
    rw [List.take_length]
    omega
  unfold pointAt
  dsimp only
  rw [hstart, htake]
  exact ⟨rfl, by omega⟩

/-- The bytes between two others are what is cut out at their place. -/
theorem slice_append (before middle after : Bytes) :
    slice (before ++ middle ++ after) before.length (before.length + middle.length) = middle := by
  rw [slice, List.append_assoc, List.drop_left, Nat.add_sub_cancel_left, List.take_left]

end Source

namespace Position

variable {source : Bytes} {a b : Nat}

/-- A position is not after that of a later byte. -/
theorem notAfter_inSource (hab : a ≤ b) (hb : b ≤ source.length) :
    (inSource source a).notAfter (inSource source b) := by
  unfold notAfter inSource
  simp only [Bool.or_eq_true, Bool.and_eq_true, decide_eq_true_eq, beq_iff_eq]
  have hle := Source.pointAt_le hab hb
  omega

/-- The position of a later byte is not before. -/
theorem not_before_inSource (hab : a ≤ b) (hb : b ≤ source.length) :
    ¬ (inSource source b).before (inSource source a) := by
  unfold before inSource
  simp only [Bool.or_eq_true, Bool.and_eq_true, decide_eq_true_eq, beq_iff_eq]
  have hle := Source.pointAt_le hab hb
  omega

/-- A position is not after that of a later byte, be it behind the end of the source or not. -/
theorem notAfter_inSource_of_le (source : Bytes) (hab : a ≤ b) :
    (inSource source a).notAfter (inSource source b) := by
  unfold notAfter inSource
  simp only [Bool.or_eq_true, Bool.and_eq_true, decide_eq_true_eq, beq_iff_eq]
  rcases Nat.le_total b source.length with hb | hb
  · have hle := Source.pointAt_le hab hb
    omega
  · obtain ⟨hrow, hcolumn⟩ := Source.pointAt_of_length_le hb
    rcases Nat.le_total a source.length with ha | ha
    · have hle := Source.pointAt_le ha (Nat.le_refl source.length)
      omega
    · obtain ⟨hrow', hcolumn'⟩ := Source.pointAt_of_length_le ha
      omega

end Position

/-- The text that a span covers in a source. -/
def Span.text (source : Bytes) (s : Span) : String :=
  Source.textBetween source s.start.byteOffset.toNat s.stop.byteOffset.toNat

@[simp]
theorem Span.text_ofTree (source : Bytes) (t : Tree) :
    (Span.ofTree source t).text source = Source.textOf source t := rfl

end Concordance
