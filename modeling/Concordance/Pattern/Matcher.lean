import Concordance.Pattern.Basic

/-!
# Matching patterns

`Pattern.run` gives all ways in which a pattern can go on from a place in a text, the preferred one
first. A match is the first way from the leftmost place that has one.
-/

namespace Concordance.Pattern

/-- A place in a text: what stands before it, nearest first, and after it, and where the groups were
last opened and last closed. -/
structure Place where
  before : List Char
  rest : List Char
  opened : List (Nat × Nat)
  closed : List (Nat × Nat)
  deriving DecidableEq, Inhabited

namespace Place

/-- How far into the text the place is. -/
def offset (s : Place) : Nat := s.before.length

/-- One character further. -/
def advance (s : Place) : Place :=
  match s.rest with
  | [] => s
  | c :: rest => { s with before := c :: s.before, rest }

/-- Some characters further. -/
def advanceBy (s : Place) : Nat → Place
  | 0 => s
  | n + 1 => s.advance.advanceBy n

/-- Some characters back, if there are as many. -/
def back? (s : Place) (width : Nat) : Option Place :=
  if s.offset < width then none
  else some { s with before := s.before.drop width, rest := (s.before.take width).reverse ++ s.rest }

/-- Opens a group here. -/
def openGroup (s : Place) (number : Nat) : Place :=
  { s with opened := (number, s.offset) :: s.opened.filter fun g => g.1 != number }

/-- Closes a group here. -/
def closeGroup (s : Place) (number : Nat) : Place :=
  { s with closed := (number, s.offset) :: s.closed.filter fun g => g.1 != number }

/-- What a group has taken, unless it has been opened anew further on. -/
def taken? (s : Place) (number : Nat) : Option (List Char) := do
  let start ← s.opened.lookup number
  let stop ← s.closed.lookup number
  if start ≤ stop then some (((s.before.reverse ++ s.rest).drop start).take (stop - start)) else none

/-- The same place with the groups as another place has them. -/
def withGroups (s t : Place) : Place :=
  { s with opened := t.opened, closed := t.closed }

end Place

/-- The numbers of the letters that count as one with a character. -/
def variants (folding : Folding) (c : Char) : List Nat :=
  let n := c.toNat
  match folding with
  | .none => [n]
  | .ascii => if 65 ≤ n && n ≤ 90 then [n, n + 32] else if 97 ≤ n && n ≤ 122 then [n, n - 32] else [n]
  | .full => Chars.caseVariants n

/-- Whether a character is in a part of a set. -/
def itemHas (folding : Folding) (c : Char) : SetItem → Bool
  | .range low high => (variants folding c).any fun n => low ≤ n && n ≤ high
  | .named k ascii negated => k.contains ascii c != negated

/-- Whether a character is the one with a number. -/
def isChar (folding : Folding) (code : Nat) (c : Char) : Bool :=
  match folding with
  | .full => Chars.caseKey code == Chars.caseKey c.toNat
  | folding => folding.fold code == folding.fold c.toNat

/-- Whether `text` opens with `start`, letter by letter in the form in which they are compared. -/
def opens (folding : Folding) : List Char → List Char → Bool
  | [], _ => true
  | _ :: _, [] => false
  | a :: start, b :: text =>
    folding.fold a.toNat == folding.fold b.toNat && opens folding start text

/-- Whether a character is missing or belongs to no word. -/
def isOutside (ascii : Bool) (c : Option Char) : Bool :=
  !c.any (NamedClass.word.contains ascii)

/-- Whether a place is the one an anchor asks for. A text without characters has neither borders nor
places between them. -/
def anchorHolds (s : Place) : Anchor → Bool
  | .textStart => s.before.isEmpty
  | .textEnd => s.rest.isEmpty
  | .lineStart => s.before.head?.all (· == '\n')
  | .lineEnd => s.rest.head?.all (· == '\n')
  | .lastLineEnd => s.rest.isEmpty || s.rest == ['\n']
  | .border ascii => isOutside ascii s.before.head? != isOutside ascii s.rest.head?
  | .noBorder ascii =>
    isOutside ascii s.before.head? == isOutside ascii s.rest.head? &&
      !(s.before.isEmpty && s.rest.isEmpty)

/-- Takes one character that satisfies `p`. -/
def takeOne (p : Char → Bool) (s : Place) : List Place :=
  match s.rest with
  | [] => []
  | c :: _ => if p c then [s.advance] else []

/-- The ways of repeating a step: first as often as it must be, then as often as it can be. `last` is
where the last repetition that need not be began; one that took nothing is not followed by another. -/
def repeatRun (step : Place → List Place) (greedy : Bool) :
    Nat → Nat → Option Nat → Option Nat → Place → List Place
  | 0, _, _, _, s => [s]
  | fuel + 1, least, most, last, s =>
    let further (last : Option Nat) := (step s).eraseDups.flatMap
      (repeatRun step greedy fuel (least - 1) (most.map (· - 1)) last)
    if 0 < least then further last
    else if most == some 0 || last == some s.offset then [s]
    else if greedy then further (some s.offset) ++ [s]
    else s :: further (some s.offset)

/-- The ways in which a pattern can go on from a place, the preferred one first. -/
def run : Pattern → Place → List Place
  | .empty, s => [s]
  | .char folding code, s => takeOne (isChar folding code) s
  | .any newlines, s => takeOne (fun c => newlines || c != '\n') s
  | .oneOf folding negated items, s =>
    takeOne (fun c => items.any (itemHas folding c) != negated) s
  | .seq p q, s => (p.run s).flatMap q.run
  | .alt p q, s => p.run s ++ q.run s
  | .repeated p least most eagerness, s =>
    let fuel := least + s.rest.length + 2
    match eagerness with
    | .greedy => repeatRun p.run true fuel least most none s
    | .lazy => repeatRun p.run false fuel least most none s
    -- no repetition is taken back, not even for the sake of the next one
    | .possessive => (repeatRun (fun t => (p.run t).take 1) true fuel least most none s).take 1
  | .group n p, s => (p.run (s.openGroup n)).map (·.closeGroup n)
  | .again n folding, s =>
    match s.taken? n with
    | none => []
    | some text => if opens folding text s.rest then [s.advanceBy text.length] else []
  | .ifGroup n p q, s => if (s.taken? n).isSome then p.run s else q.run s
  | .anchor a, s => if anchorHolds s a then [s] else []
  | .ahead negated p, s => glance s negated (p.run s)
  | .behind negated width p, s => glance s negated (((s.back? width).map p.run).getD [])
  | .atomic p, s => (p.run s).take 1
where
  /-- Stays at a place if there are ways to look around from it, or if there must not be any and there
  are none. -/
  glance (s : Place) (negated : Bool) : List Place → List Place
    | [] => if negated then [s] else []
    | t :: _ => if negated then [] else [s.withGroups t]

/-- A match: where it starts and where it ends. -/
structure Match where
  start : Nat
  stop : Nat
  deriving DecidableEq, Inhabited

/-- The first match from a place on. -/
def searchFrom (p : Pattern) (before : List Char) : List Char → Option Match
  | [] => here []
  | c :: rest => here (c :: rest) <|> searchFrom p (c :: before) rest
where
  /-- The match at this very place. -/
  here (rest : List Char) : Option Match :=
    (p.run ⟨before, rest, [], []⟩).head?.map fun t => ⟨before.length, t.offset⟩

/-- The first match of a pattern in a text. -/
def search (p : Pattern) (text : String) : Option Match :=
  searchFrom p [] text.toList

end Concordance.Pattern
