import Concordance.Number
import Concordance.Record.Import
import Concordance.Record.Reference
import Concordance.Record.Symbol

/-!
# File entries

All that one file declares, imports, exports and uses, with the digest of its contents.
-/

namespace Concordance

/-- What was read off one source. -/
structure Extraction where
  symbols : List Symbol := []
  imports : List Import := []
  exports : List Export := []
  references : List Reference := []
  deriving DecidableEq, Inhabited

/-- The entry of a file in an index. -/
structure FileEntry where
  file : String
  language : String
  digest : String
  modified : Number := .zero
  symbols : List Symbol := []
  imports : List Import := []
  exports : List Export := []
  references : List Reference := []
  deriving DecidableEq, Inhabited

end Concordance
