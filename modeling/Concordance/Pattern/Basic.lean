import Concordance.Chars.Basic
import Concordance.Chars.Case
import Concordance.Chars.Letter

/-!
# Patterns

The patterns of a search: characters and classes, choices, repetitions, groups that can be referred
to, places in a text, and conditions on what stands around. Letter case is set aside where a pattern
does not ask for it. Characters are given by their numbers, since a pattern may also ask for one that no
text has.
-/

namespace Concordance

/-- Why a written pattern cannot be used. It is not well-formed; or it is, but a repetition count is too
large or has too many digits, or it asks for two alphabets at once. -/
inductive PatternFault where
  | malformed
  | countTooLarge
  | countTooLong
  | mixedAlphabets
  deriving DecidableEq, Inhabited

/-- Which letters count as one although they differ in case: none, those of ASCII, or all. -/
inductive Folding where
  | none
  | ascii
  | full
  deriving DecidableEq, Inhabited

/-- The form by which letters are compared. -/
def Folding.fold : Folding → Nat → Nat
  | .none, n => n
  | .ascii, n => if 65 ≤ n && n ≤ 90 then n + 32 else n
  | .full, n => Chars.lowerCode n

/-- A class of characters that has a name. -/
inductive NamedClass where
  | digit
  | blank
  | word
  deriving DecidableEq, Inhabited

/-- Whether a character is in a named class; `ascii` leaves only the characters of ASCII in it. -/
def NamedClass.contains (k : NamedClass) (ascii : Bool) (c : Char) : Bool :=
  (!ascii || (c.toNat < 128 && !(0x1c ≤ c.toNat && c.toNat ≤ 0x1f))) &&
    match k with
    | .digit => Chars.isDecimal c
    | .blank => Chars.isBlank c
    | .word => Chars.isWord c

/-- A part of a set of characters: a range of numbers, or a named class or its opposite. -/
inductive SetItem where
  | range (low high : Nat)
  | named (k : NamedClass) (ascii negated : Bool)
  deriving DecidableEq, Inhabited

/-- A place in a text. -/
inductive Anchor where
  | textStart
  | textEnd
  | lineStart
  | lineEnd
  | lastLineEnd
  | border (ascii : Bool)
  | noBorder (ascii : Bool)
  deriving DecidableEq, Inhabited

/-- Which repetitions are tried first: many, few, or as many as there are and no other number. -/
inductive Eagerness where
  | greedy
  | lazy
  | possessive
  deriving DecidableEq, Inhabited

/-- A pattern. -/
inductive Pattern where
  | empty
  | char (folding : Folding) (code : Nat)
  | any (newlines : Bool)
  | oneOf (folding : Folding) (negated : Bool) (items : List SetItem)
  | seq (first second : Pattern)
  | alt (first second : Pattern)
  | repeated (body : Pattern) (least : Nat) (most : Option Nat) (eagerness : Eagerness)
  | group (number : Nat) (body : Pattern)
  | again (number : Nat) (folding : Folding)
  | ifGroup (number : Nat) (taken untaken : Pattern)
  | anchor (a : Anchor)
  | ahead (negated : Bool) (body : Pattern)
  | behind (negated : Bool) (width : Nat) (body : Pattern)
  | atomic (body : Pattern)
  deriving Inhabited

/-- How many characters a part of a text takes, at least and at most. -/
structure Width where
  least : Nat
  most : Option Nat
  deriving DecidableEq, Inhabited

namespace Width

/-- The width of two parts one after the other. -/
def add (a b : Width) : Width :=
  ⟨a.least + b.least, a.most.bind fun m => b.most.map (m + ·)⟩

/-- The width of one of two parts. -/
def either (a b : Width) : Width :=
  ⟨min a.least b.least, a.most.bind fun m => b.most.map (max m)⟩

/-- The width of a repetition; nothing repeated without bound, and anything repeated no times, takes
nothing. -/
def times (a : Width) (least : Nat) (most : Option Nat) : Width :=
  ⟨a.least * least,
    if a.most == some 0 || most == some 0 then some 0
    else a.most.bind fun m => most.map (m * ·)⟩

end Width

/-- How many characters a pattern takes; `groups` are the widths of the groups before it. -/
def Pattern.width (groups : List (Nat × Width)) : Pattern → Width
  | .empty | .anchor _ | .ahead .. | .behind .. => ⟨0, some 0⟩
  | .char .. | .any _ | .oneOf .. => ⟨1, some 1⟩
  | .seq p q => (p.width groups).add (q.width groups)
  | .alt p q | .ifGroup _ p q => (p.width groups).either (q.width groups)
  | .repeated p least most _ => (p.width groups).times least most
  | .group _ p | .atomic p => p.width groups
  | .again n _ => (groups.lookup n).getD ⟨0, none⟩

end Concordance
