import Concordance.Chars.Numeral
import Concordance.Chars.Printable

/-!
# Quoted texts

A text between quotes as messages show it: between apostrophes, or between double quotes if it has
an apostrophe and no double quote. Characters that cannot be printed are shown by their number.
-/

namespace Concordance.Chars

/-- The quote around a text. -/
def quoteFor (cs : List Char) : Char :=
  if cs.contains '\'' && !cs.contains '"' then '"' else '\''

/-- A character that cannot be printed, by its number. -/
def numbered (n : Nat) : List Char :=
  if n < 0x100 then '\\' :: 'x' :: hexNumeral 2 n
  else if n < 0x10000 then '\\' :: 'u' :: hexNumeral 4 n
  else '\\' :: 'U' :: hexNumeral 8 n

/-- A character inside the quotes. -/
def quotedChar (quote c : Char) : List Char :=
  if c == quote || c == '\\' then ['\\', c]
  else if c == '\t' then ['\\', 't']
  else if c == '\n' then ['\\', 'n']
  else if c == '\r' then ['\\', 'r']
  else if isPrintable c then [c]
  else numbered c.toNat

/-- The text between quotes. -/
def quoted (cs : List Char) : List Char :=
  let quote := quoteFor cs
  quote :: (cs.flatMap (quotedChar quote) ++ [quote])

end Concordance.Chars

namespace Concordance.Text

/-- The text between quotes. -/
def quoted (s : String) : String :=
  .ofList (Chars.quoted s.toList)

end Concordance.Text
