import Concordance.Tree.Basic

/-!
# Trees as rows

A tree can be given as one row for each of its nodes, every row naming the row of its parent, a
parent before its children. The rows are taken from the last to the first: when a row is taken, all
its children are complete.
-/

namespace Concordance.Tree

/-- One node of a tree: the row of its parent, if it has one, and what it says about itself. -/
structure Row where
  parent : Option Nat
  info : NodeInfo

/-- A complete tree that waits for the row of its parent. -/
structure Waiting where
  parent : Option Nat
  tree : Tree

/-- Takes the row with the given number: the trees that wait for it become its children. -/
def takeRow (number : Nat) (row : Row) (waiting : List Waiting) : List Waiting :=
  let parts := waiting.partition fun w => w.parent == some number
  ⟨row.parent, .node row.info (parts.1.map Waiting.tree)⟩ :: parts.2

/-- The trees that wait after taking all rows, of which the first has the given number. -/
def takeRows : Nat → List Row → List Waiting
  | _, [] => []
  | number, row :: rest => takeRow number row (takeRows (number + 1) rest)

/-- The tree of the rows, whose root comes first. -/
def ofRows? (rows : List Row) : Option Tree :=
  (takeRows 0 rows).head?.map Waiting.tree

end Concordance.Tree
