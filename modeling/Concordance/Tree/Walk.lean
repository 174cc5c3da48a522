import Concordance.Tree.Node

/-!
# Walking a tree

`Node.walk` visits a node and everything below it with an explicit stack, so that trees may be of
any depth: the next node is taken from the stack and its children are put in its place.
-/

namespace Concordance.Node

/-- How many trees there are in a stack of nodes. -/
def load (stack : List Node) : Nat :=
  Tree.sizes (stack.map Node.tree)

theorem sizes_append (ts us : List Tree) :
    Tree.sizes (ts ++ us) = Tree.sizes ts + Tree.sizes us := by
  induction ts with
  | nil => simp [Tree.sizes]
  | cons t ts ih => simp only [List.cons_append, Tree.sizes, ih]; omega

/-- Putting a node's children in its place lightens the stack by one. -/
theorem load_children (n : Node) (rest : List Node) :
    load (n.children ++ rest) < load (n :: rest) := by
  simp only [load, List.map_append, List.map_cons, sizes_append, Tree.sizes, children,
    map_tree_placed]
  cases h : n.tree with
  | node i cs => simp [Tree.size, Tree.children]

/-- The nodes of a stack and everything below them, from the top. -/
def walkStack : List Node → List Node
  | [] => []
  | n :: rest => n :: walkStack (n.children ++ rest)
termination_by stack => load stack
decreasing_by exact load_children n rest

/-- A node and everything below it, in the order of the source. -/
def walk (n : Node) : List Node :=
  walkStack [n]

end Concordance.Node
