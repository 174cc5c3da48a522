import Concordance.Chars.Letter

/-!
# Words standing alone

A word stands alone where no word character touches it. The modifiers of a declaration are read
off its header this way.
-/

namespace Concordance.Chars

/-- Whether no word character stands at the border of a text. -/
def isBorder : Option Char → Bool
  | none => true
  | some c => !isWord c

/-- Whether the text starts with `word`, standing alone, after the character `before`. -/
def wordStartsAt (word : List Char) (before : Option Char) (cs : List Char) : Bool :=
  isBorder before && word.isPrefixOf cs && isBorder (cs.drop word.length).head?

/-- Looks for the first place after `before` where one of the words stands alone. -/
def firstWordAfter (candidates : List (List Char)) : Option Char → List Char → Option (List Char)
  | _, [] => none
  | before, c :: rest =>
    match candidates.find? fun w => wordStartsAt w before (c :: rest) with
    | some w => some w
    | none => firstWordAfter candidates (some c) rest

/-- The word of the list that stands alone first in the text. -/
def firstWord? (candidates : List (List Char)) (cs : List Char) : Option (List Char) :=
  firstWordAfter candidates none cs

end Concordance.Chars

namespace Concordance.Text

/-- The word of the list that stands alone first in the text. -/
def firstWord? (candidates : List String) (s : String) : Option String :=
  (Chars.firstWord? (candidates.map String.toList) s.toList).map String.ofList

/-- Whether `word` stands alone somewhere in the text. -/
def hasWord (word s : String) : Bool :=
  (firstWord? [word] s).isSome

/-- Whether the text starts with `word`, followed by no word character. -/
def startsWithWord (word s : String) : Bool :=
  Chars.wordStartsAt word.toList none s.toList

end Concordance.Text
