import Concordance.Extract.Declaration.Generic
import Concordance.Extract.Export
import Concordance.Extract.Import
import Concordance.Extract.Member
import Concordance.Extract.Reference
import Concordance.Tree.Walk

/-!
# Extraction

Four passes over the syntax tree of a source give its symbols, imports, exports and references,
each in the order of the source.
-/

namespace Concordance.Extract

/-- The symbols of a tree, members not yet linked. -/
def symbols (ctx : Context) (t : Tree) : Except Fault (List Symbol) := do
  return (← (Node.root t).walk.mapM (declarations ctx)).flatten

/-- Reads off the tree of a source all that it declares, imports, exports and uses. -/
def extract (ctx : Context) (t : Tree) : Except Fault Extraction := do
  let declared ← symbols ctx t
  let nodes := (Node.root t).walk
  return {
    symbols := Symbol.linkMembers declared
    imports := nodes.flatMap (imports ctx)
    exports := nodes.flatMap (exports ctx)
    references := nodes.flatMap fun n => references ctx n.tree }

end Concordance.Extract
