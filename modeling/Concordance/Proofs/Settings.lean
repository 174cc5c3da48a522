import Concordance.Proofs.Chars.Utf8
import Concordance.Settings.Document
import Concordance.Store

/-!
# Settings from texts that are none

Settings are read from whatever stands where they should be. An empty text is a document without
tables, and a stored index is no document at all: both give the defaults.
-/

namespace Concordance

namespace Toml

/-- A key does not start with a brace. -/
theorem key?_brace (cs : List Char) : key? ('\x7b' :: cs) = none := by
  have hpart : keyPart? ('\x7b' :: cs) = none := by
    rw [keyPart?]
    · rw [List.takeWhile_cons_of_neg (by decide)]
      rfl
    · exact fun rest h => absurd (List.cons.inj h).1 (by decide)
    · exact fun rest h => absurd (List.cons.inj h).1 (by decide)
  rw [key?, keyFrom?, hpart]
  rfl

/-- No document starts with a brace. -/
theorem parse?_brace (cs : List Char) : parse? ('\x7b' :: cs) = none := by
  obtain ⟨rest, hrest⟩ : ∃ rest, Chars.joinReturns ('\x7b' :: cs) = '\x7b' :: rest := by
    cases cs with
    | nil => exact ⟨[], rfl⟩
    | cons c cs => exact ⟨Chars.joinReturns (c :: cs), rfl⟩
  have hskip : skipSpaces ('\x7b' :: rest) = '\x7b' :: rest := rfl
  have hstatement : statement? ('\x7b' :: rest) = none := by
    rw [statement?, assignment?, key?_brace]
    · rfl
    · exact fun rest h => absurd (List.cons.inj h).1 (by decide)
    · exact fun rest h => absurd (List.cons.inj h).1 (by decide)
  rw [parse?, hrest, statements?, hskip]
  dsimp only
  rw [if_neg (by decide), hstatement]
  rfl

end Toml

namespace Settings

/-- An empty file gives the defaults. -/
theorem ofBytes_nil : ofBytes [] = .ok {} := by decide

/-- The text of a stored index starts with a brace. -/
theorem exists_toList_stored (index : ProjectIndex) :
    ∃ cs, index.stored.toList = '\x7b' :: cs := by
  rw [ProjectIndex.stored, Json.render, String.toList_ofList]
  exact ⟨_, rfl⟩

/-- A stored index gives the defaults. -/
theorem ofBytes_stored (index : ProjectIndex) : ofBytes (Utf8.bytes index.stored) = .ok {} := by
  obtain ⟨cs, hcs⟩ := exists_toList_stored index
  rw [ofBytes, Utf8.bytes, Utf8.decode?_encode, hcs]
  dsimp only
  rw [ofText, Toml.parse?_brace]

end Settings

end Concordance
