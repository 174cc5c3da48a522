import Concordance.Chars.Basic

/-!
# Globs

A glob is a pattern for paths: `*` stands for any characters, slashes too, `?` for any one character,
and `[…]` for one character of a class. A bracket that is not closed is a plain character.

A class lists characters and ranges; a `!` before them turns it into its opposite. A range that runs
backwards is dropped from the class together with its ends; a class that loses all it has matches
nothing, and its opposite matches any character.

A leading `**/` may also stand for nothing, see `Glob.accepts`.
-/

namespace Concordance

/-- A class of characters. -/
structure CharClass where
  negated : Bool
  singles : List Char
  ranges : List (Char × Char)
  deriving DecidableEq, Inhabited

/-- Whether a character is in a class. -/
def CharClass.contains (k : CharClass) (c : Char) : Bool :=
  (k.singles.contains c || k.ranges.any fun r => r.1 ≤ c && c ≤ r.2) != k.negated

namespace Glob

/-- A part of a glob. -/
inductive Token where
  | star
  | any
  | char (c : Char)
  | oneOf (k : CharClass)
  deriving DecidableEq, Inhabited

/-- Cuts the text of a class at the hyphens that make ranges: one at least `start` characters in,
and then one at least two characters after each. A hyphen at the very end is a plain one. -/
def rangeChunks (start : Nat) (cs : List Char) : List (List Char) :=
  match (cs.drop start).findIdx? (· == '-') with
  | none => [cs]
  | some n =>
    if (cs.drop (start + n + 1)).isEmpty then [cs]
    else cs.take (start + n) :: rangeChunks 2 (cs.drop (start + n + 1))
termination_by cs.length
decreasing_by
  have : cs.drop (start + n + 1) ≠ [] := by simp_all
  have := List.length_pos_iff.2 this
  simp only [List.length_drop] at this ⊢
  omega

/-- Joins a chunk with those after it, dropping the range between if it runs backwards. -/
def joinChunk (chunk : List Char) (rest : List (List Char)) : List (List Char) :=
  match chunk.getLast?, rest with
  | some low, (high :: more) :: others =>
    if high < low then (chunk.dropLast ++ more) :: others else chunk :: (high :: more) :: others
  | _, _ => chunk :: rest

/-- The ranges between chunks. -/
def rangesOf : List (List Char) → List (Char × Char)
  | chunk :: next :: rest =>
    match chunk.getLast?, next.head? with
    | some low, some high => (low, high) :: rangesOf (next :: rest)
    | _, _ => rangesOf (next :: rest)
  | _ => []

/-- The class of some chunks. A hyphen before which nothing is left is a plain one. -/
def classOfChunks (negated : Bool) (chunks : List (List Char)) : CharClass :=
  let hyphen := match chunks with
    | [] :: _ :: _ => ['-']
    | _ => []
  ⟨negated, hyphen ++ chunks.flatten, rangesOf chunks⟩

/-- The class that a text between brackets describes. -/
def classOf (cs : List Char) : CharClass :=
  let start := if cs.head? == some '!' then 2 else 1
  match (rangeChunks start cs).foldr joinChunk [] with
  | ('!' :: chunk) :: rest => classOfChunks true (chunk :: rest)
  | chunks => classOfChunks false chunks

/-- The text between brackets and what follows it, if there is a closing bracket. A bracket right at
the start, or after a `!` there, does not close. -/
def bracketed? (cs : List Char) : Option (List Char × List Char) :=
  let head := if cs.head? == some '!' then 1 else 0
  let head := if (cs.drop head).head? == some ']' then head + 1 else head
  let stuff := cs.take head ++ (cs.drop head).takeWhile (· != ']')
  match cs.drop stuff.length with
  | [] => none
  | _ :: rest => some (stuff, rest)

/-- What stands behind a class is shorter than the text with the class. -/
theorem length_of_bracketed? {cs stuff rest : List Char} (h : bracketed? cs = some (stuff, rest)) :
    rest.length < cs.length := by
  unfold bracketed? at h
  simp only at h
  split at h
  · cases h
  · next heq =>
    have := congrArg List.length heq
    simp only [Option.some.injEq, Prod.mk.injEq] at h
    simp only [List.length_drop, List.length_cons, h.2] at this
    omega

/-- Puts a star before the parts of a glob; two in a row are one. -/
def consStar : List Token → List Token
  | .star :: rest => .star :: rest
  | rest => .star :: rest

/-- The parts of a glob. -/
def tokens : List Char → List Token
  | [] => []
  | c :: rest =>
    if c == '*' then consStar (tokens rest)
    else if c == '?' then .any :: tokens rest
    else if c == '[' then
      match h : bracketed? rest with
      | none => .char c :: tokens rest
      | some (stuff, after) =>
        have := length_of_bracketed? h
        .oneOf (classOf stuff) :: tokens after
    else .char c :: tokens rest
termination_by cs => cs.length

/-- Whether the parts of a glob match a text. -/
def matchTokens : List Token → List Char → Bool
  | [], cs => cs.isEmpty
  | .star :: ts, [] => matchTokens ts []
  | .star :: ts, c :: cs => matchTokens ts (c :: cs) || matchTokens (.star :: ts) cs
  | .any :: ts, _ :: cs => matchTokens ts cs
  | .char x :: ts, c :: cs => x == c && matchTokens ts cs
  | .oneOf k :: ts, c :: cs => k.contains c && matchTokens ts cs
  | _ :: _, [] => false
termination_by ts cs => ts.length + cs.length

/-- Whether a glob matches a text. -/
def matchChars (glob text : List Char) : Bool :=
  matchTokens (tokens glob) text

/-- Whether a glob matches a path, taken literally or without one or more leading `**/`. -/
def acceptsChars (glob text : List Char) : Bool :=
  matchChars glob text ||
    match glob with
    | '*' :: '*' :: '/' :: rest => acceptsChars rest text
    | _ => false
termination_by glob.length

end Glob

/-- Whether a glob matches a path, where a leading `**/` may stand for nothing. -/
def Glob.accepts (glob path : String) : Bool :=
  Glob.acceptsChars glob.toList path.toList

end Concordance
