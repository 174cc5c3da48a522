import Concordance.Chars.Numeral
import Concordance.Chars.Utf8

/-!
# Digests of contents

The contents of a file are told apart by the first sixteen hexadecimal digits of their SHA-256
digest. A message is padded to whole blocks of sixteen words; every block is stretched to sixty-four
words by a recurrence over a window of sixteen, and these are mixed into the state one by one.
-/

namespace Concordance.Digest

/-- The state that a digest is computed in. -/
structure State where
  a : UInt32
  b : UInt32
  c : UInt32
  d : UInt32
  e : UInt32
  f : UInt32
  g : UInt32
  h : UInt32
  deriving DecidableEq, Inhabited

/-- The state before the first block. -/
def State.initial : State :=
  ⟨0x6a09e667, 0xbb67ae85, 0x3c6ef372, 0xa54ff53a, 0x510e527f, 0x9b05688c, 0x1f83d9ab, 0x5be0cd19⟩

/-- The constants that go with the words of a block. -/
def constants : List UInt32 :=
  [0x428a2f98, 0x71374491, 0xb5c0fbcf, 0xe9b5dba5, 0x3956c25b, 0x59f111f1, 0x923f82a4, 0xab1c5ed5,
   0xd807aa98, 0x12835b01, 0x243185be, 0x550c7dc3, 0x72be5d74, 0x80deb1fe, 0x9bdc06a7, 0xc19bf174,
   0xe49b69c1, 0xefbe4786, 0x0fc19dc6, 0x240ca1cc, 0x2de92c6f, 0x4a7484aa, 0x5cb0a9dc, 0x76f988da,
   0x983e5152, 0xa831c66d, 0xb00327c8, 0xbf597fc7, 0xc6e00bf3, 0xd5a79147, 0x06ca6351, 0x14292967,
   0x27b70a85, 0x2e1b2138, 0x4d2c6dfc, 0x53380d13, 0x650a7354, 0x766a0abb, 0x81c2c92e, 0x92722c85,
   0xa2bfe8a1, 0xa81a664b, 0xc24b8b70, 0xc76c51a3, 0xd192e819, 0xd6990624, 0xf40e3585, 0x106aa070,
   0x19a4c116, 0x1e376c08, 0x2748774c, 0x34b0bcb5, 0x391c0cb3, 0x4ed8aa4a, 0x5b9cca4f, 0x682e6ff3,
   0x748f82ee, 0x78a5636f, 0x84c87814, 0x8cc70208, 0x90befffa, 0xa4506ceb, 0xbef9a3f7, 0xc67178f2]

/-- The word with its bits turned round to the right. -/
def rotate (x : UInt32) (n : UInt32) : UInt32 :=
  (x >>> n) ||| (x <<< (32 - n))

/-- The word that follows a window of sixteen words. -/
def nextWord (window : List UInt32) : UInt32 :=
  let x := window.getD 1 0
  let y := window.getD 14 0
  window.getD 0 0 + (rotate x 7 ^^^ rotate x 18 ^^^ (x >>> 3)) + window.getD 9 0 +
    (rotate y 17 ^^^ rotate y 19 ^^^ (y >>> 10))

/-- The first `count` words that a window begins. -/
def schedule : Nat → List UInt32 → List UInt32
  | 0, _ => []
  | _ + 1, [] => []
  | count + 1, x :: rest => x :: schedule count (rest ++ [nextWord (x :: rest)])

/-- Mixes one word and its constant into the state. -/
def mix (s : State) (word : UInt32 × UInt32) : State :=
  let t := s.h + (rotate s.e 6 ^^^ rotate s.e 11 ^^^ rotate s.e 25) +
    ((s.e &&& s.f) ^^^ ((s.e ^^^ 0xffffffff) &&& s.g)) + word.1 + word.2
  let u := (rotate s.a 2 ^^^ rotate s.a 13 ^^^ rotate s.a 22) +
    ((s.a &&& s.b) ^^^ (s.a &&& s.c) ^^^ (s.b &&& s.c))
  ⟨t + u, s.a, s.b, s.c, s.d + t, s.e, s.f, s.g⟩

/-- Mixes a block of sixteen words into the state. -/
def mixBlock (s : State) (block : List UInt32) : State :=
  let m := ((schedule 64 block).zip constants).foldl mix s
  ⟨s.a + m.a, s.b + m.b, s.c + m.c, s.d + m.d, s.e + m.e, s.f + m.f, s.g + m.g, s.h + m.h⟩

/-- The words of some bytes, four bytes each, the most significant first. -/
def wordsOf : Bytes → List UInt32
  | w :: x :: y :: z :: rest =>
    ((w.toUInt32 <<< 24) ||| (x.toUInt32 <<< 16) ||| (y.toUInt32 <<< 8) ||| z.toUInt32) ::
      wordsOf rest
  | _ => []

/-- The bytes of a number, the most significant first. -/
def bigEndian : Nat → Nat → Bytes
  | 0, _ => []
  | count + 1, n => bigEndian count (n / 256) ++ [UInt8.ofNat (n % 256)]

/-- The message filled up to whole blocks: a mark, zeros, and its length in bits. -/
def padded (message : Bytes) : Bytes :=
  let zeros := (119 - message.length % 64) % 64
  message ++ 0x80 :: (List.replicate zeros 0 ++ bigEndian 8 (8 * message.length))

/-- The first `count` blocks of some words. -/
def blocks : Nat → List UInt32 → List (List UInt32)
  | 0, _ => []
  | count + 1, ws => ws.take 16 :: blocks count (ws.drop 16)

/-- The state after all blocks of a message. -/
def digest (message : Bytes) : State :=
  let ws := wordsOf (padded message)
  (blocks (ws.length / 16) ws).foldl mixBlock .initial

/-- The digits by which contents are told apart. -/
def fingerprint (contents : Bytes) : String :=
  let s := digest contents
  .ofList (Chars.hexNumeral 8 s.a.toNat ++ Chars.hexNumeral 8 s.b.toNat)

end Concordance.Digest
