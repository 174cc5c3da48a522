import Concordance.Chars.Utf8
import Mathlib.Tactic.IntervalCases

/-!
# Writing and reading UTF-8

What is written is read back: from any state without a sequence begun, the reader takes the bytes of
a character to that character (`foldl_step_encodeChar`), so `decode?` undoes `encode`. And what is read
was written: bytes are well-formed just if they are those of a text (`decode?_eq_some_iff`).
-/

namespace Concordance.Utf8

@[simp]
theorem encode_nil : encode [] = [] := rfl

@[simp]
theorem encode_cons (c : Char) (cs : List Char) :
    encode (c :: cs) = String.utf8EncodeChar c ++ encode cs := rfl

/-- Two texts one after the other are encoded one after the other. -/
@[simp]
theorem encode_append (cs ds : List Char) : encode (cs ++ ds) = encode cs ++ encode ds :=
  List.flatMap_append

/-! ### Reading one character

The bytes of a sequence are named by what they add to its value: the byte after `n` others adds `x`
if it is `x + 0x80`. -/

section Step

variable {out : List Char} {sound : Bool} {b : UInt8} {x : Nat}

/-- An ASCII byte is a character of its own. -/
theorem step_one (hb : b.toNat = x) (hx : x < 0x80) :
    step ⟨out, none, sound⟩ b = ⟨.ofNat x :: out, none, sound⟩ := by
  simp [step, begin, hb, hx]

/-- A byte from C2 to DF opens a sequence of two bytes. -/
theorem step_two (hb : b.toNat = x + 0xc0) (hlow : 2 ≤ x) (hhigh : x < 0x20) :
    step ⟨out, none, sound⟩ b = ⟨out, some ⟨1, 0x80, 0xbf, x⟩, sound⟩ := by
  have hascii : ¬ x + 0xc0 < 0x80 := by omega
  have hfirst : 0xc2 ≤ x + 0xc0 ∧ x + 0xc0 ≤ 0xdf := by omega
  simp [step, begin, hb, hascii, hfirst]

/-- The first byte of three: the range of the second leaves out what can be written shorter, and the
surrogates. -/
theorem step_three (hb : b.toNat = x + 0xe0) (hhigh : x < 0x10) :
    step ⟨out, none, sound⟩ b =
      ⟨out, some ⟨2, if x = 0 then 0xa0 else 0x80, if x = 0xd then 0x9f else 0xbf, x⟩, sound⟩ := by
  unfold step
  dsimp only
  rw [hb]
  interval_cases x <;> rfl

/-- The first byte of four: the range of the second leaves out what can be written shorter, and what
is beyond the last character. -/
theorem step_four (hb : b.toNat = x + 0xf0) (hhigh : x ≤ 4) :
    step ⟨out, none, sound⟩ b =
      ⟨out, some ⟨3, if x = 0 then 0x90 else 0x80, if x = 4 then 0x8f else 0xbf, x⟩, sound⟩ := by
  unfold step
  dsimp only
  rw [hb]
  interval_cases x <;> rfl

variable {low high value : Nat}

/-- A byte of a sequence after which more are lacking. -/
theorem step_more {n : Nat} (hb : b.toNat = x + 0x80) (hlow : low ≤ x + 0x80)
    (hhigh : x + 0x80 ≤ high) :
    step ⟨out, some ⟨n + 2, low, high, value⟩, sound⟩ b =
      ⟨out, some ⟨n + 1, 0x80, 0xbf, value * 64 + x⟩, sound⟩ := by
  simp [step, hb, hlow, hhigh]

/-- The last byte of a sequence. -/
theorem step_last (hb : b.toNat = x + 0x80) (hlow : low ≤ x + 0x80) (hhigh : x + 0x80 ≤ high) :
    step ⟨out, some ⟨1, low, high, value⟩, sound⟩ b =
      ⟨.ofNat (value * 64 + x) :: out, none, sound⟩ := by
  simp [step, hb, hlow, hhigh]

/-- A byte that does not go on with the open sequence ends it as ill-formed and begins anew. -/
theorem step_out_of_range {p : Pending} (hrange : ¬ (p.low ≤ b.toNat ∧ b.toNat ≤ p.high)) :
    step ⟨out, some p, sound⟩ b = step ⟨replacement :: out, none, false⟩ b := by
  simp [step, abandon, hrange]

end Step

/-- The sequences that begin with a byte. -/
inductive Begins (b : UInt8) : Pending → Prop
  | two {x : Nat} (hb : b.toNat = x + 0xc0) (hlow : 2 ≤ x) (hhigh : x < 0x20) :
      Begins b ⟨1, 0x80, 0xbf, x⟩
  | three {x : Nat} (hb : b.toNat = x + 0xe0) (hhigh : x < 0x10) :
      Begins b ⟨2, if x = 0 then 0xa0 else 0x80, if x = 0xd then 0x9f else 0xbf, x⟩
  | four {x : Nat} (hb : b.toNat = x + 0xf0) (hhigh : x ≤ 4) :
      Begins b ⟨3, if x = 0 then 0x90 else 0x80, if x = 4 then 0x8f else 0xbf, x⟩

/-- **What becomes of a byte when no sequence is begun**: it is an ASCII character, it is refused, or it
begins a sequence. -/
theorem step_none_cases (out : List Char) (sound : Bool) (b : UInt8) :
    (b.toNat < 0x80 ∧ step ⟨out, none, sound⟩ b = ⟨.ofNat b.toNat :: out, none, sound⟩) ∨
      (0x80 ≤ b.toNat ∧ step ⟨out, none, sound⟩ b = ⟨replacement :: out, none, false⟩) ∨
      ∃ p, Begins b p ∧ step ⟨out, none, sound⟩ b = ⟨out, some p, sound⟩ := by
  by_cases hone : b.toNat < 0x80
  · exact .inl ⟨hone, step_one rfl hone⟩
  by_cases htwo : 0xc2 ≤ b.toNat ∧ b.toNat ≤ 0xdf
  · obtain ⟨x, hx⟩ : ∃ x, b.toNat = x + 0xc0 := ⟨b.toNat - 0xc0, by omega⟩
    exact .inr (.inr ⟨_, .two hx (by omega) (by omega), step_two hx (by omega) (by omega)⟩)
  by_cases hthree : 0xe0 ≤ b.toNat ∧ b.toNat ≤ 0xef
  · obtain ⟨x, hx⟩ : ∃ x, b.toNat = x + 0xe0 := ⟨b.toNat - 0xe0, by omega⟩
    exact .inr (.inr ⟨_, .three hx (by omega), step_three hx (by omega)⟩)
  by_cases hfour : 0xf0 ≤ b.toNat ∧ b.toNat ≤ 0xf4
  · obtain ⟨x, hx⟩ : ∃ x, b.toNat = x + 0xf0 := ⟨b.toNat - 0xf0, by omega⟩
    exact .inr (.inr ⟨_, .four hx (by omega), step_four hx (by omega)⟩)
  · refine .inr (.inl ⟨Nat.le_of_not_lt hone, ?_⟩)
    rw [step, begin, if_neg hone, if_neg (by simpa using htwo), if_neg (by simp; omega),
      if_neg (by simp; omega), if_neg (by simp; omega), if_neg (by simp; omega), if_neg (by simp; omega),
      if_neg (by simp; omega)]

theorem toNat_ofNat_of_lt {n : Nat} (h : n < 256) : (UInt8.ofNat n).toNat = n := by
  rw [UInt8.toNat_ofNat']
  omega

section Sequence

variable (out : List Char) (sound : Bool) {v : Nat}

/-- Two bytes are read as the character that they encode. -/
theorem foldl_step_two (hlow : 0x7f < v) (hhigh : v ≤ 0x7ff) :
    [UInt8.ofNat (v / 64 % 0x20 + 0xc0), UInt8.ofNat (v % 0x40 + 0x80)].foldl step
      ⟨out, none, sound⟩ = ⟨.ofNat v :: out, none, sound⟩ := by
  have h₀ : (UInt8.ofNat (v / 64 % 0x20 + 0xc0)).toNat = v / 64 + 0xc0 := by
    rw [toNat_ofNat_of_lt (by omega)]
    omega
  have h₁ : (UInt8.ofNat (v % 0x40 + 0x80)).toNat = v % 64 + 0x80 :=
    toNat_ofNat_of_lt (by omega)
  have hvalue : v / 64 * 64 + v % 64 = v := by omega
  rw [List.foldl_cons, step_two h₀ (by omega) (by omega),
    List.foldl_cons, step_last h₁ (by omega) (by omega), hvalue, List.foldl_nil]

/-- Three bytes are read as the character that they encode. -/
theorem foldl_step_three (hlow : 0x7ff < v) (hhigh : v ≤ 0xffff)
    (hvalid : v < 0xd800 ∨ 0xdfff < v) :
    [UInt8.ofNat (v / 4096 % 0x10 + 0xe0), UInt8.ofNat (v / 64 % 0x40 + 0x80),
      UInt8.ofNat (v % 0x40 + 0x80)].foldl step ⟨out, none, sound⟩ =
      ⟨.ofNat v :: out, none, sound⟩ := by
  have h₀ : (UInt8.ofNat (v / 4096 % 0x10 + 0xe0)).toNat = v / 4096 + 0xe0 := by
    rw [toNat_ofNat_of_lt (by omega)]
    omega
  have h₁ : (UInt8.ofNat (v / 64 % 0x40 + 0x80)).toNat = v / 64 % 64 + 0x80 :=
    toNat_ofNat_of_lt (by omega)
  have h₂ : (UInt8.ofNat (v % 0x40 + 0x80)).toNat = v % 64 + 0x80 :=
    toNat_ofNat_of_lt (by omega)
  -- The second byte is out of its range only for what is shorter, or for a surrogate.
  have hshort : (if v / 4096 = 0 then 0xa0 else 0x80) ≤ v / 64 % 64 + 0x80 := by
    split <;> omega
  have hsurrogate : v / 64 % 64 + 0x80 ≤ if v / 4096 = 0xd then 0x9f else 0xbf := by
    split <;> omega
  have hvalue : (v / 4096 * 64 + v / 64 % 64) * 64 + v % 64 = v := by omega
  rw [List.foldl_cons, step_three h₀ (by omega),
    List.foldl_cons, step_more h₁ hshort hsurrogate,
    List.foldl_cons, step_last h₂ (by omega) (by omega), hvalue, List.foldl_nil]

/-- Four bytes are read as the character that they encode. -/
theorem foldl_step_four (hlow : 0xffff < v) (hhigh : v < 0x110000) :
    [UInt8.ofNat (v / 262144 % 0x08 + 0xf0), UInt8.ofNat (v / 4096 % 0x40 + 0x80),
      UInt8.ofNat (v / 64 % 0x40 + 0x80), UInt8.ofNat (v % 0x40 + 0x80)].foldl step
      ⟨out, none, sound⟩ = ⟨.ofNat v :: out, none, sound⟩ := by
  have h₀ : (UInt8.ofNat (v / 262144 % 0x08 + 0xf0)).toNat = v / 262144 + 0xf0 := by
    rw [toNat_ofNat_of_lt (by omega)]
    omega
  have h₁ : (UInt8.ofNat (v / 4096 % 0x40 + 0x80)).toNat = v / 4096 % 64 + 0x80 :=
    toNat_ofNat_of_lt (by omega)
  have h₂ : (UInt8.ofNat (v / 64 % 0x40 + 0x80)).toNat = v / 64 % 64 + 0x80 :=
    toNat_ofNat_of_lt (by omega)
  have h₃ : (UInt8.ofNat (v % 0x40 + 0x80)).toNat = v % 64 + 0x80 :=
    toNat_ofNat_of_lt (by omega)
  have hshort : (if v / 262144 = 0 then 0x90 else 0x80) ≤ v / 4096 % 64 + 0x80 := by
    split <;> omega
  have hbeyond : v / 4096 % 64 + 0x80 ≤ if v / 262144 = 4 then 0x8f else 0xbf := by
    split <;> omega
  have hvalue : ((v / 262144 * 64 + v / 4096 % 64) * 64 + v / 64 % 64) * 64 + v % 64 = v := by
    omega
  rw [List.foldl_cons, step_four h₀ (by omega),
    List.foldl_cons, step_more h₁ hshort hbeyond,
    List.foldl_cons, step_more h₂ (by omega) (by omega),
    List.foldl_cons, step_last h₃ (by omega) (by omega), hvalue, List.foldl_nil]

end Sequence

/-- **One character.** Its bytes are read as the character. -/
theorem foldl_step_encodeChar (out : List Char) (sound : Bool) (c : Char) :
    (String.utf8EncodeChar c).foldl step ⟨out, none, sound⟩ = ⟨c :: out, none, sound⟩ := by
  have hvalid : c.val.toNat < 0xd800 ∨ 0xdfff < c.val.toNat ∧ c.val.toNat < 0x110000 := c.valid
  have hback : Char.ofNat c.val.toNat = c := Char.ofNat_toNat c
  unfold String.utf8EncodeChar
  generalize c.val.toNat = v at hvalid hback
  dsimp only
  split
  · rw [List.foldl_cons, step_one (toNat_ofNat_of_lt (by omega)) (by omega), hback, List.foldl_nil]
  · split
    · rw [foldl_step_two _ _ (by omega) (by omega), hback]
    · split
      · rw [foldl_step_three _ _ (by omega) (by omega) (by omega), hback]
      · rw [foldl_step_four _ _ (by omega) (by omega), hback]

/-- **A whole text.** Its bytes are read as its characters, last first. -/
theorem foldl_step_encode (out : List Char) (sound : Bool) (cs : List Char) :
    (encode cs).foldl step ⟨out, none, sound⟩ = ⟨cs.reverse ++ out, none, sound⟩ := by
  induction cs generalizing out with
  | nil => rfl
  | cons c cs ih =>
      rw [encode_cons, List.foldl_append, foldl_step_encodeChar, ih, List.reverse_cons,
        List.append_assoc, List.singleton_append]

/-- What is written is read back. -/
theorem decode?_encode (cs : List Char) : decode? (encode cs) = some cs := by
  rw [decode?, run, foldl_step_encode]
  simp [abandon]

/-- **What was encoded is decoded.** -/
theorem decode_encode (cs : List Char) : decode (encode cs) = cs := by
  rw [decode, run, foldl_step_encode]
  simp [abandon]

/-! ### What is read was written

The bytes of a sequence are followed until they are those of a character. So after any bytes, as long
as all were well-formed, the reader holds the characters that they are the bytes of, and a sequence
that has begun (`Accounts`). -/

/-- What the bytes `begun` of a sequence lead to: one byte after the other in the range of the next
makes them the bytes of a character. -/
def Leads : (lacking low high value : Nat) → Bytes → Prop
  | 0, _, _, _, _ => False
  | 1, low, high, value, begun =>
    ∀ b : UInt8, low ≤ b.toNat → b.toNat ≤ high →
      begun ++ [b] = String.utf8EncodeChar (.ofNat (value * 64 + (b.toNat - 0x80)))
  | lacking + 2, low, high, value, begun =>
    ∀ b : UInt8, low ≤ b.toNat → b.toNat ≤ high →
      Leads (lacking + 1) 0x80 0xbf (value * 64 + (b.toNat - 0x80)) (begun ++ [b])

theorem val_ofNat {v : Nat} (h : v.isValidChar) : (Char.ofNat v).val.toNat = v := by
  rw [Char.ofNat, dif_pos h]
  rfl

theorem eq_ofNat {b : UInt8} {n : Nat} (h : b.toNat = n) : b = .ofNat n := by
  rw [← h, UInt8.ofNat_toNat]

section Leads

variable {b : UInt8} {x : Nat}

/-- An ASCII byte is the encoding of its character. -/
theorem encodeChar_one (hb : b.toNat < 0x80) : [b] = String.utf8EncodeChar (.ofNat b.toNat) := by
  have hvalid : b.toNat.isValidChar := .inl (by omega)
  unfold String.utf8EncodeChar
  rw [val_ofNat hvalid, if_pos (by omega), UInt8.ofNat_toNat]

/-- A first byte of two leaves one byte to come. -/
theorem leads_two (hb : b.toNat = x + 0xc0) (hlow : 2 ≤ x) (hhigh : x < 0x20) :
    Leads 1 0x80 0xbf x [b] := by
  intro c hc hc'
  obtain ⟨y, hy⟩ : ∃ y, c.toNat = y + 0x80 := ⟨c.toNat - 0x80, by omega⟩
  have hvalid : (x * 64 + y).isValidChar := .inl (by omega)
  unfold String.utf8EncodeChar
  rw [hy, Nat.add_sub_cancel, val_ofNat hvalid, if_neg (by omega), if_pos (by omega)]
  have h₀ : (x * 64 + y) / 64 % 0x20 = x := by omega
  have h₁ : (x * 64 + y) % 0x40 = y := by omega
  rw [h₀, h₁, ← eq_ofNat hb, ← eq_ofNat hy]
  rfl

/-- A first byte of three leaves two to come; after E0 and ED the first of them has a smaller range.
-/
theorem leads_three (hb : b.toNat = x + 0xe0) (hhigh : x < 0x10) :
    Leads 2 (if x = 0 then 0xa0 else 0x80) (if x = 0xd then 0x9f else 0xbf) x [b] := by
  intro c hshort hsurrogate d hd hd'
  have hc : 0x80 ≤ c.toNat ∧ c.toNat ≤ 0xbf ∧ (x = 0 → 0xa0 ≤ c.toNat) ∧
      (x = 0xd → c.toNat ≤ 0x9f) := by
    split at hshort <;> split at hsurrogate <;> omega
  obtain ⟨y, hy⟩ : ∃ y, c.toNat = y + 0x80 := ⟨c.toNat - 0x80, by omega⟩
  obtain ⟨z, hz⟩ : ∃ z, d.toNat = z + 0x80 := ⟨d.toNat - 0x80, by omega⟩
  have hvalid : ((x * 64 + y) * 64 + z).isValidChar := by
    by_cases hx : x < 0xe
    · exact .inl (by omega)
    · exact .inr (by omega)
  unfold String.utf8EncodeChar
  rw [hy, hz, Nat.add_sub_cancel, Nat.add_sub_cancel, val_ofNat hvalid, if_neg (by omega),
    if_neg (by omega), if_pos (by omega)]
  have h₀ : ((x * 64 + y) * 64 + z) / 4096 % 0x10 = x := by omega
  have h₁ : ((x * 64 + y) * 64 + z) / 64 % 0x40 = y := by omega
  have h₂ : ((x * 64 + y) * 64 + z) % 0x40 = z := by omega
  rw [h₀, h₁, h₂, ← eq_ofNat hb, ← eq_ofNat hy, ← eq_ofNat hz]
  rfl

/-- A first byte of four leaves three to come; after F0 and F4 the first of them has a smaller
range. -/
theorem leads_four (hb : b.toNat = x + 0xf0) (hhigh : x ≤ 4) :
    Leads 3 (if x = 0 then 0x90 else 0x80) (if x = 4 then 0x8f else 0xbf) x [b] := by
  intro c hshort hbeyond d hd hd' e he he'
  have hc : 0x80 ≤ c.toNat ∧ c.toNat ≤ 0xbf ∧ (x = 0 → 0x90 ≤ c.toNat) ∧
      (x = 4 → c.toNat ≤ 0x8f) := by
    split at hshort <;> split at hbeyond <;> omega
  obtain ⟨y, hy⟩ : ∃ y, c.toNat = y + 0x80 := ⟨c.toNat - 0x80, by omega⟩
  obtain ⟨z, hz⟩ : ∃ z, d.toNat = z + 0x80 := ⟨d.toNat - 0x80, by omega⟩
  obtain ⟨w, hw⟩ : ∃ w, e.toNat = w + 0x80 := ⟨e.toNat - 0x80, by omega⟩
  have hvalid : (((x * 64 + y) * 64 + z) * 64 + w).isValidChar := .inr (by omega)
  unfold String.utf8EncodeChar
  rw [hy, hz, hw, Nat.add_sub_cancel, Nat.add_sub_cancel, Nat.add_sub_cancel, val_ofNat hvalid,
    if_neg (by omega), if_neg (by omega), if_neg (by omega)]
  have h₀ : (((x * 64 + y) * 64 + z) * 64 + w) / 262144 % 0x08 = x := by omega
  have h₁ : (((x * 64 + y) * 64 + z) * 64 + w) / 4096 % 0x40 = y := by omega
  have h₂ : (((x * 64 + y) * 64 + z) * 64 + w) / 64 % 0x40 = z := by omega
  have h₃ : (((x * 64 + y) * 64 + z) * 64 + w) % 0x40 = w := by omega
  rw [h₀, h₁, h₂, h₃, ← eq_ofNat hb, ← eq_ofNat hy, ← eq_ofNat hz, ← eq_ofNat hw]
  rfl

/-- The first byte of a sequence leads to a character. -/
theorem Begins.leads {p : Pending} (h : Begins b p) : Leads p.lacking p.low p.high p.value [b] := by
  cases h with
  | two hb hlow hhigh => exact leads_two hb hlow hhigh
  | three hb hhigh => exact leads_three hb hhigh
  | four hb hhigh => exact leads_four hb hhigh

end Leads

/-- The bytes that a state accounts for, if all were well-formed: those of the characters read, and
those of the sequence that has begun. -/
def Accounts (s : State) (bytes : Bytes) : Prop :=
  s.sound →
    match s.pending with
    | none => bytes = encode s.out.reverse
    | some p => ∃ begun, bytes = encode s.out.reverse ++ begun ∧
        Leads p.lacking p.low p.high p.value begun

/-- A reader that has met ill-formed bytes accounts for nothing. -/
theorem Accounts.of_unsound {s : State} (h : s.sound = false) (bytes : Bytes) :
    Accounts s bytes := by
  intro hsound
  rw [h] at hsound
  cases hsound

/-- Once something was ill-formed no byte makes it good. -/
theorem sound_begin {s : State} (h : s.sound = false) (b : Nat) : (begin s b).sound = false := by
  obtain ⟨out, pending, sound⟩ := s
  cases h
  unfold begin
  repeat' split
  all_goals rfl

/-- A character that is read last is encoded last. -/
theorem encode_reverse_cons (c : Char) (out : List Char) :
    encode (c :: out).reverse = encode out.reverse ++ String.utf8EncodeChar c := by
  rw [List.reverse_cons, encode_append, encode_cons, encode_nil, List.append_nil]

section Accounts

variable {out : List Char} {sound : Bool} {bytes : Bytes}

/-- A byte that begins a sequence. -/
theorem Accounts.step_none (h : Accounts ⟨out, none, sound⟩ bytes) (b : UInt8) :
    Accounts (step ⟨out, none, sound⟩ b) (bytes ++ [b]) := by
  rcases step_none_cases out sound b with ⟨hone, hstep⟩ | ⟨-, hstep⟩ | ⟨p, hbegins, hstep⟩
  · rw [hstep]
    intro hsound
    change bytes ++ [b] = encode (Char.ofNat b.toNat :: out).reverse
    rw [encode_reverse_cons, ← encodeChar_one hone, h hsound]
  · rw [hstep]
    exact .of_unsound rfl _
  · rw [hstep]
    intro hsound
    exact ⟨[b], by rw [h hsound], hbegins.leads⟩

/-- A byte after others of a sequence. -/
theorem Accounts.step_some {lacking low high value : Nat}
    (h : Accounts ⟨out, some ⟨lacking, low, high, value⟩, sound⟩ bytes) (b : UInt8) :
    Accounts (step ⟨out, some ⟨lacking, low, high, value⟩, sound⟩ b) (bytes ++ [b]) := by
  by_cases hrange : low ≤ b.toNat ∧ b.toNat ≤ high
  · intro hsound
    have hkept : sound = true := by
      rw [step] at hsound
      dsimp only at hsound
      rw [if_pos (by simpa using hrange)] at hsound
      split at hsound <;> exact hsound
    obtain ⟨begun, hbytes, hleads⟩ := h hkept
    rw [step]
    dsimp only
    rw [if_pos (by simpa using hrange)]
    match lacking, hleads with
    | 1, hleads =>
        change bytes ++ [b] = encode (Char.ofNat _ :: out).reverse
        rw [encode_reverse_cons, ← hleads b hrange.1 hrange.2, hbytes, List.append_assoc]
    | lacking + 2, hleads =>
        rw [if_neg (by simp)]
        exact ⟨begun ++ [b], by rw [hbytes, List.append_assoc], hleads b hrange.1 hrange.2⟩
  · rw [step_out_of_range hrange]
    exact .of_unsound (sound_begin rfl _) _

end Accounts

/-- **One byte.** What the reader accounts for grows by the byte that it reads. -/
theorem Accounts.step {s : State} {bytes : Bytes} (h : Accounts s bytes) (b : UInt8) :
    Accounts (step s b) (bytes ++ [b]) := by
  obtain ⟨out, pending, sound⟩ := s
  cases pending with
  | none => exact h.step_none b
  | some p => exact h.step_some b

/-- **All bytes.** The state accounts for those read before and those read now. -/
theorem Accounts.foldl_step {s : State} {before : Bytes} (h : Accounts s before) (bytes : Bytes) :
    Accounts (bytes.foldl Utf8.step s) (before ++ bytes) := by
  induction bytes generalizing s before with
  | nil =>
      rw [List.append_nil]
      exact h
  | cons b bytes ih =>
      have hnext := ih (h.step b)
      rw [List.append_assoc] at hnext
      exact hnext

/-- **Well-formed bytes** are just those of a text, and are read as it. -/
theorem decode?_eq_some_iff {bytes : Bytes} {cs : List Char} :
    decode? bytes = some cs ↔ bytes = encode cs := by
  constructor
  · intro h
    have hstart : Accounts ⟨[], none, true⟩ [] := fun _ => rfl
    have hend := hstart.foldl_step bytes
    rw [List.nil_append] at hend
    rw [decode?, run] at h
    generalize bytes.foldl step ⟨[], none, true⟩ = s at h hend
    obtain ⟨out, pending, sound⟩ := s
    cases pending with
    | none =>
        cases sound with
        | false => cases h
        | true =>
            cases h
            exact hend rfl
    | some p => cases h
  · rintro rfl
    exact decode?_encode cs

end Concordance.Utf8
