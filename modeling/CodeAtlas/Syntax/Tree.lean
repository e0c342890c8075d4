/-!
# Syntax trees

A syntax tree is a node with its children in order.  A node knows its grammatical kind, whether it
is named, the field under which its parent holds it, and its place in the text.

## Main definitions

* `CodeAtlas.Syntax.Node`, `CodeAtlas.Syntax.Tree` — nodes and trees.
* `CodeAtlas.Syntax.Tree.size` — the number of nodes.
* `CodeAtlas.Syntax.Tree.preorder` — all subtrees, each before those below it.
* `CodeAtlas.Syntax.Tree.childByField?` — the first child that a field holds.
-/

namespace CodeAtlas.Syntax

/-- A node without its children. -/
structure Node where
  /-- The grammatical kind. -/
  kind : String
  /-- The node has a name in the grammar, and is no bare token. -/
  named : Bool
  /-- The field under which the parent holds the node. -/
  field : Option String
  /-- The byte at which the text of the node starts. -/
  startByte : Nat
  /-- The byte before which the text of the node ends. -/
  endByte : Nat
  /-- The row in which the text starts, counted from zero. -/
  startRow : Nat
  /-- The row in which the text ends, counted from zero. -/
  endRow : Nat
  deriving DecidableEq, Repr

/-- A node with its children. -/
inductive Tree where
  /-- The tree with root `node` and the subtrees `children`. -/
  | mk (node : Node) (children : List Tree)

namespace Tree

/-- The root. -/
def node : Tree → Node
  | .mk n _ => n

/-- The subtrees of the root, in order. -/
def children : Tree → List Tree
  | .mk _ ts => ts

mutual

/-- The number of nodes. -/
def size : Tree → Nat
  | .mk _ ts => 1 + sizes ts

/-- The number of nodes of some trees. -/
def sizes : List Tree → Nat
  | [] => 0
  | t :: ts => t.size + sizes ts

end

mutual

/-- All subtrees: the tree itself, then those of its children in order. -/
def preorder : Tree → List Tree
  | .mk n ts => .mk n ts :: preorders ts

/-- All subtrees of some trees. -/
def preorders : List Tree → List Tree
  | [] => []
  | t :: ts => t.preorder ++ preorders ts

end

/-- The children that are named. -/
def namedChildren (t : Tree) : List Tree := t.children.filter fun c => c.node.named

/-- The first child that a field holds. -/
def childByField? (t : Tree) (field : String) : Option Tree :=
  t.children.find? fun c => c.node.field = some field

/-- The size of a tree is one more than that of its children. -/
theorem size_eq (t : Tree) : t.size = 1 + sizes t.children := by
  cases t; simp [size, children]

@[simp] theorem sizes_nil : sizes [] = 0 := by simp [sizes]

@[simp] theorem sizes_cons (t : Tree) (ts : List Tree) : sizes (t :: ts) = t.size + sizes ts := by
  simp [sizes]

@[simp] theorem sizes_append (ts us : List Tree) : sizes (ts ++ us) = sizes ts + sizes us := by
  induction ts with
  | nil => simp
  | cons t ts ih => simp [ih]; omega

/-- Leaving trees out does not add nodes. -/
theorem sizes_filter_le (p : Tree → Bool) (ts : List Tree) : sizes (ts.filter p) ≤ sizes ts := by
  induction ts with
  | nil => simp
  | cons t ts ih =>
    by_cases h : p t
    · simp [h]; exact ih
    · simp [h]; omega

end Tree

end CodeAtlas.Syntax
