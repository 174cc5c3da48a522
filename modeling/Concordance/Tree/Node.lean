import Concordance.Tree.Basic

/-!
# Trees at their place

A node is a tree together with the way up from it: its ancestors, nearest first, and at each step
the siblings before it, also nearest first. So a node knows its parent and what stands before it,
and going up is dropping a step.
-/

namespace Concordance

/-- A step of the way up: the parent, and the children of it that stand before, nearest first. -/
structure Ancestor where
  tree : Tree
  earlier : List Tree
  deriving Inhabited

/-- The kind of an ancestor. -/
def Ancestor.kind (a : Ancestor) : String := a.tree.kind

/-- A tree at its place. -/
structure Node where
  tree : Tree
  above : List Ancestor
  deriving Inhabited

namespace Node

/-- A tree that stands alone. -/
def root (t : Tree) : Node := ⟨t, []⟩

/-- The kind of the node. -/
def kind (n : Node) : String := n.tree.kind

/-- The node one step up. -/
def parent? (n : Node) : Option Node :=
  match n.above with
  | [] => none
  | a :: rest => some ⟨a.tree, rest⟩

/-- The kind of the parent. -/
def parentKind? (n : Node) : Option String :=
  n.above.head?.map Ancestor.kind

/-- The siblings before the node, nearest first. -/
def earlier (n : Node) : List Tree :=
  match n.above with
  | [] => []
  | a :: _ => a.earlier

/-- The places of the children in `rest`, with the siblings `before` them, nearest first. -/
def placed (n : Node) (before : List Tree) : List Tree → List Node
  | [] => []
  | t :: rest => ⟨t, ⟨n.tree, before⟩ :: n.above⟩ :: n.placed (t :: before) rest

/-- The children at their places. -/
def children (n : Node) : List Node :=
  n.placed [] n.tree.children

/-- The trees of the placed children are the children. -/
theorem map_tree_placed (n : Node) (before rest : List Tree) :
    (n.placed before rest).map Node.tree = rest := by
  induction rest generalizing before with
  | nil => rfl
  | cons t rest ih => simp [placed, ih]

end Node

end Concordance
