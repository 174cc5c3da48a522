/-!
# UTF-8

`encode` writes characters as bytes. Reading goes byte by byte: the reader holds the sequence it
is in the middle of, with the range its next byte must lie in. A byte outside that range ends the
sequence, which is then ill-formed as far as it was read, and is looked at afresh.

`decode` writes one replacement character for each longest ill-formed beginning of a sequence;
`decode?` refuses ill-formed input.
-/

namespace Concordance

/-- Contents of a file. -/
abbrev Bytes := List UInt8

namespace Utf8

/-- The bytes of a text. -/
def encode (cs : List Char) : Bytes :=
  cs.flatMap String.utf8EncodeChar

/-- A sequence not yet complete: how many bytes it lacks, where the next one must lie, and the
value read so far. -/
structure Pending where
  lacking : Nat
  low : Nat
  high : Nat
  value : Nat

/-- The reader's state: the characters read, last first, the sequence begun, and whether all input
so far was well-formed. -/
structure State where
  out : List Char
  pending : Option Pending
  sound : Bool

/-- The character that stands for an ill-formed sequence. -/
def replacement : Char := '�'

/-- Reads a byte that begins a sequence. -/
def begin (s : State) (b : Nat) : State :=
  if b < 0x80 then { s with out := .ofNat b :: s.out, pending := none }
  else if 0xc2 ≤ b && b ≤ 0xdf then { s with pending := some ⟨1, 0x80, 0xbf, b - 0xc0⟩ }
  else if b == 0xe0 then { s with pending := some ⟨2, 0xa0, 0xbf, 0⟩ }
  else if b == 0xed then { s with pending := some ⟨2, 0x80, 0x9f, 0xd⟩ }
  else if 0xe1 ≤ b && b ≤ 0xef then { s with pending := some ⟨2, 0x80, 0xbf, b - 0xe0⟩ }
  else if b == 0xf0 then { s with pending := some ⟨3, 0x90, 0xbf, 0⟩ }
  else if 0xf1 ≤ b && b ≤ 0xf3 then { s with pending := some ⟨3, 0x80, 0xbf, b - 0xf0⟩ }
  else if b == 0xf4 then { s with pending := some ⟨3, 0x80, 0x8f, 4⟩ }
  else { out := replacement :: s.out, pending := none, sound := false }

/-- Gives up the sequence begun. -/
def abandon (s : State) : State :=
  match s.pending with
  | none => s
  | some _ => { out := replacement :: s.out, pending := none, sound := false }

/-- Reads one byte. -/
def step (s : State) (byte : UInt8) : State :=
  let b := byte.toNat
  match s.pending with
  | none => begin s b
  | some p =>
    if p.low ≤ b && b ≤ p.high then
      let value := p.value * 64 + (b - 0x80)
      if p.lacking == 1 then { s with out := .ofNat value :: s.out, pending := none }
      else { s with pending := some ⟨p.lacking - 1, 0x80, 0xbf, value⟩ }
    else begin (abandon s) b

/-- The state after all bytes, an unfinished sequence given up. -/
def run (bytes : Bytes) : State :=
  abandon (bytes.foldl step { out := [], pending := none, sound := true })

/-- The text of the bytes, ill-formed sequences replaced. -/
def decode (bytes : Bytes) : List Char :=
  (run bytes).out.reverse

/-- The text of well-formed bytes. -/
def decode? (bytes : Bytes) : Option (List Char) :=
  let s := run bytes
  if s.sound then some s.out.reverse else none

/-- The text of the bytes as a string, ill-formed sequences replaced. -/
def text (bytes : Bytes) : String :=
  .ofList (decode bytes)

/-- The bytes of a string. -/
def bytes (s : String) : Bytes :=
  encode s.toList

end Utf8
end Concordance
