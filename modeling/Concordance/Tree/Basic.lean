/-!
# Syntax trees

A tree of the syntax of a source: every tree has a kind, a span of bytes and its children in
order. A child may be known to its parent by a *field*; a child that is not *named* is a bare token
of the grammar.

`Tree.preorder` lists a tree and everything below it, a tree before its children and the children
from left to right.
-/

namespace Concordance

/-- What a syntax tree says about itself: its kind, whether it is named, the bytes it spans, and
the field by which its parent knows it. -/
structure NodeInfo where
  kind : String
  named : Bool
  start : Nat
  stop : Nat
  field : Option String
  deriving DecidableEq, Inhabited

/-- A syntax tree. -/
inductive Tree where
  | node (info : NodeInfo) (children : List Tree)
  deriving Inhabited

namespace Tree

/-- What the tree says about itself. -/
def info : Tree → NodeInfo
  | .node i _ => i

/-- The children in order. -/
def children : Tree → List Tree
  | .node _ cs => cs

/-- The kind of the tree. -/
def kind (t : Tree) : String := t.info.kind

/-- The first byte of the tree. -/
def start (t : Tree) : Nat := t.info.start

/-- The byte after the last of the tree. -/
def stop (t : Tree) : Nat := t.info.stop

mutual

/-- How many trees there are in a tree, itself counted. -/
def size : Tree → Nat
  | .node _ cs => 1 + sizes cs

/-- How many trees there are in a list of trees. -/
def sizes : List Tree → Nat
  | [] => 0
  | t :: ts => size t + sizes ts

end

mutual

/-- The tree, then everything below it from left to right. -/
def preorder : Tree → List Tree
  | .node i cs => .node i cs :: preorders cs

/-- The trees of a list, each followed by everything below it. -/
def preorders : List Tree → List Tree
  | [] => []
  | t :: ts => preorder t ++ preorders ts

end

/-- A tree of a list is no larger than the list. -/
theorem size_le_sizes {t : Tree} {ts : List Tree} (h : t ∈ ts) : t.size ≤ sizes ts := by
  induction ts with
  | nil => cases h
  | cons u us ih =>
    rw [sizes]
    cases h with
    | head => omega
    | tail _ h => have := ih h; omega

/-- A child is smaller than its parent. -/
theorem size_lt_of_mem {t c : Tree} (h : c ∈ t.children) : c.size < t.size := by
  cases t with
  | node i cs =>
    have : c.size ≤ sizes cs := size_le_sizes h
    simp only [size]
    omega

/-- The children that are named. -/
def namedChildren (t : Tree) : List Tree :=
  t.children.filter fun c => c.info.named

/-- The first child known by a field. -/
def field? (name : String) (t : Tree) : Option Tree :=
  t.children.find? fun c => c.info.field == some name

/-- All children known by a field. -/
def fields (name : String) (t : Tree) : List Tree :=
  t.children.filter fun c => c.info.field == some name

/-- The first child of one of the kinds. -/
def childOf? (kinds : List String) (t : Tree) : Option Tree :=
  t.children.find? fun c => kinds.contains c.kind

/-- All children of one of the kinds. -/
def childrenOf (kinds : List String) (t : Tree) : List Tree :=
  t.children.filter fun c => kinds.contains c.kind

/-- Whether some child is of a kind, as a keyword among the tokens is. -/
def hasToken (token : String) (t : Tree) : Bool :=
  t.children.any fun c => c.kind == token

theorem mem_of_field? {name : String} {t c : Tree} (h : t.field? name = some c) :
    c ∈ t.children :=
  List.mem_of_find?_eq_some h

theorem mem_of_mem_namedChildren {t c : Tree} (h : c ∈ t.namedChildren) : c ∈ t.children :=
  (List.mem_filter.1 h).1

end Tree

end Concordance
