import CodeAtlas.Syntax.Tree

/-!
# Walking a tree with a cursor

A cursor stands on a node of a tree and can move to its first child, its next sibling and its
parent.  The walk goes down as long as it can, then to the next sibling, and otherwise up to the
nearest ancestor that has one.

## Main definitions

* `CodeAtlas.Syntax.Cursor` — a subtree in its surroundings.
* `CodeAtlas.Syntax.Cursor.firstChild?`, `CodeAtlas.Syntax.Cursor.nextSibling?`,
  `CodeAtlas.Syntax.Cursor.parent?` — the three moves.
* `CodeAtlas.Syntax.Cursor.advance?` — one step of the walk.
* `CodeAtlas.Syntax.Tree.walk` — the subtrees that the walk visits, in order.

## Main results

* `CodeAtlas.Syntax.Cursor.pending_of_advance?` — every step leaves fewer nodes ahead, so that the
  walk ends.
-/

namespace CodeAtlas.Syntax

/-- The surroundings of a node among its siblings. -/
structure Frame where
  /-- The parent, without its children. -/
  parent : Node
  /-- The siblings before the node, nearest first. -/
  before : List Tree
  /-- The siblings after the node, in order. -/
  after : List Tree

/-- A subtree together with its surroundings, innermost first. -/
structure Cursor where
  /-- The subtree on which the cursor stands. -/
  focus : Tree
  /-- The surroundings, from the parent up to the root. -/
  context : List Frame

namespace Cursor

/-- The cursor on the first child. -/
def firstChild? (c : Cursor) : Option Cursor :=
  match c.focus with
  | .mk n (t :: ts) => some ⟨t, ⟨n, [], ts⟩ :: c.context⟩
  | .mk _ [] => none

/-- The cursor on the next sibling. -/
def nextSibling? (c : Cursor) : Option Cursor :=
  match c.context with
  | ⟨p, before, t :: after⟩ :: outer => some ⟨t, ⟨p, c.focus :: before, after⟩ :: outer⟩
  | _ => none

/-- The cursor on the parent. -/
def parent? (c : Cursor) : Option Cursor :=
  match c.context with
  | ⟨p, before, after⟩ :: outer =>
    some ⟨.mk p (before.reverse ++ c.focus :: after), outer⟩
  | [] => none

/-- The parent has less around it. -/
theorem context_of_parent? {c d : Cursor} (h : c.parent? = some d) :
    d.context.length < c.context.length := by
  unfold parent? at h
  split at h
  · next p before after outer hc =>
    cases h
    simp [hc]
  · cases h

/-- The cursor on the next sibling of the nearest node, from the cursor's own upward, that has
one. -/
def climb? (c : Cursor) : Option Cursor :=
  match c.nextSibling? with
  | some d => some d
  | none =>
    match _h : c.parent? with
    | some d => d.climb?
    | none => none
termination_by c.context.length
decreasing_by exact context_of_parent? _h

/-- One step of the walk: down if possible, otherwise on to the next subtree. -/
def advance? (c : Cursor) : Option Cursor :=
  match c.firstChild? with
  | some d => some d
  | none => c.climb?

/-- The number of nodes that come after a subtree with these frames around it. -/
def outstanding : List Frame → Nat
  | [] => 0
  | f :: fs => Tree.sizes f.after + outstanding fs

/-- The number of nodes that come after the node of the cursor. -/
def pending (c : Cursor) : Nat :=
  Tree.sizes c.focus.children + outstanding c.context

/-- Going down uses up the child. -/
theorem pending_of_firstChild? {c d : Cursor} (h : c.firstChild? = some d) :
    d.pending < c.pending := by
  unfold firstChild? at h
  split at h
  · next n t ts hc =>
    cases h
    simp [pending, outstanding, hc, Tree.children, Tree.size_eq t]
    omega
  · cases h

/-- Going on uses up the sibling. -/
theorem pending_of_nextSibling? {c d : Cursor} (h : c.nextSibling? = some d) :
    d.pending + 1 ≤ c.pending - Tree.sizes c.focus.children := by
  unfold nextSibling? at h
  split at h
  · next p before t after outer hc =>
    cases h
    simp [pending, outstanding, hc, Tree.size_eq t]
    omega
  · cases h

/-- What comes after the parent is what comes after its last child. -/
theorem pending_of_parent? {c d : Cursor} (h : c.parent? = some d) (hn : c.nextSibling? = none) :
    d.pending - Tree.sizes d.focus.children = c.pending - Tree.sizes c.focus.children := by
  unfold parent? at h
  split at h
  · next p before after outer hc =>
    cases h
    unfold nextSibling? at hn
    cases after with
    | nil => simp [pending, outstanding, hc, Tree.children]
    | cons t after => simp [hc] at hn
  · cases h

/-- Climbing uses up the node reached. -/
theorem pending_of_climb? {c d : Cursor} (h : c.climb? = some d) :
    d.pending + 1 ≤ c.pending - Tree.sizes c.focus.children := by
  fun_induction climb? c with
  | case1 c e he =>
    cases h
    exact pending_of_nextSibling? he
  | case2 c hn e he ih =>
    rw [← pending_of_parent? he hn]
    exact ih h
  | case3 => cases h

/-- Every step of the walk leaves fewer nodes ahead. -/
theorem pending_of_advance? {c d : Cursor} (h : c.advance? = some d) : d.pending < c.pending := by
  unfold advance? at h
  split at h
  · next e he =>
    cases h
    exact pending_of_firstChild? he
  · have := pending_of_climb? h
    omega

/-- The subtrees visited from the cursor on, after those of `visited` (newest first). -/
def visit (visited : List Tree) (c : Cursor) : List Tree :=
  match _h : c.advance? with
  | some d => visit (c.focus :: visited) d
  | none => (c.focus :: visited).reverse
termination_by c.pending
decreasing_by exact pending_of_advance? _h

end Cursor

/-- The subtrees that a cursor visits on its walk from the root, in order. -/
def Tree.walk (t : Tree) : List Tree := Cursor.visit [] ⟨t, []⟩

end CodeAtlas.Syntax
