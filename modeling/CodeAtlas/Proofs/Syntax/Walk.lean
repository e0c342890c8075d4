import CodeAtlas.Proofs.Syntax.Subtree
import CodeAtlas.Syntax.Cursor

/-!
# The cursor walk is the pre-order

A cursor goes down as long as it can, and otherwise climbs until there is a next sibling.  From where it stands
it has to visit the subtree that it stands on, and then, from the inside outwards, the later siblings that its
frames hold.  One step of the walk takes the first of these nodes off, so that a walk visits the nodes of a tree
in pre-order, each of them once.

## Main definitions

* `CodeAtlas.Syntax.Cursor.address` — where a cursor stands.
* `CodeAtlas.Syntax.Cursor.CompleteWalk` — cursors that lead from one to the next, until there is none.
* `CodeAtlas.Syntax.Cursor.trail` — the cursors of the walk.

## Main results

* `CodeAtlas.Syntax.Cursor.completeWalk_trail` — they are a complete walk.
* `CodeAtlas.Syntax.Cursor.CompleteWalk.places_eq` — every complete walk visits what lies ahead, in
  pre-order.
* `CodeAtlas.Syntax.Tree.walk_eq_preorder` — a walk from the root visits the subtrees in pre-order.
-/

namespace CodeAtlas.Syntax

namespace Cursor

open CodeAtlas.Syntax.Tree (under places placesFrom)

/-! ## Where a cursor stands -/

/-- The address of a node with these frames around it. -/
def addressWithin : List Frame → List Nat
  | [] => []
  | f :: outer => addressWithin outer ++ [f.before.length]

/-- The address of the node on which the cursor stands. -/
def address (c : Cursor) : List Nat := addressWithin c.context

/-- The subtree on which the cursor stands, with its address. -/
def place (c : Cursor) : List Nat × Tree := (c.address, c.focus)

/-- The places after a subtree with these frames around it: those of the later siblings, from the inside
outwards. -/
def ahead : List Frame → List (List Nat × Tree)
  | [] => []
  | f :: outer => under (addressWithin outer) (placesFrom (f.before.length + 1) f.after) ++ ahead outer

/-- The places from the cursor on: those of its subtree, then those after it. -/
def remaining (c : Cursor) : List (List Nat × Tree) := under c.address c.focus.places ++ ahead c.context

/-! ## What a step takes off -/

/-- Going down takes off the node. -/
lemma remaining_of_firstChild? {c d : Cursor} (h : c.firstChild? = some d) :
    c.remaining = c.place :: d.remaining := by
  obtain ⟨focus, context⟩ := c
  cases focus with
  | mk n ts =>
    cases ts with
    | nil => cases h
    | cons t ts =>
      cases h
      simp [remaining, place, address, addressWithin, ahead, places, placesFrom, Tree.under_under]

/-- Without a child to go down to, only the node itself stands before what is ahead. -/
lemma remaining_of_firstChild?_eq_none {c : Cursor} (h : c.firstChild? = none) :
    c.remaining = c.place :: ahead c.context := by
  obtain ⟨focus, context⟩ := c
  cases focus with
  | mk n ts =>
    cases ts with
    | nil => simp [remaining, place, places, placesFrom, under]
    | cons t ts => cases h

/-- What is ahead starts at the next sibling. -/
lemma ahead_of_nextSibling? {c d : Cursor} (h : c.nextSibling? = some d) :
    ahead c.context = d.remaining := by
  obtain ⟨focus, _ | ⟨⟨p, before, _ | ⟨t, after⟩⟩, outer⟩⟩ := c
  · cases h
  · cases h
  · cases h
    simp [remaining, address, addressWithin, ahead, placesFrom, Tree.under_under]

/-- After the last of some siblings comes what comes after their parent. -/
lemma ahead_of_parent? {c d : Cursor} (h : c.parent? = some d) (hlast : c.nextSibling? = none) :
    ahead c.context = ahead d.context := by
  obtain ⟨focus, _ | ⟨⟨p, before, _ | ⟨t, after⟩⟩, outer⟩⟩ := c
  · cases h
  · cases h
    simp [ahead, placesFrom, under]
  · cases hlast

/-- What is ahead starts where the climb ends. -/
lemma ahead_of_climb? {c d : Cursor} (h : c.climb? = some d) : ahead c.context = d.remaining := by
  fun_induction climb? c with
  | case1 c e he =>
    cases h
    exact ahead_of_nextSibling? he
  | case2 c hlast e he ih => rw [ahead_of_parent? he hlast, ih h]
  | case3 => cases h

/-- Nothing is ahead of a climb that ends nowhere. -/
lemma ahead_of_climb?_eq_none {c : Cursor} (h : c.climb? = none) : ahead c.context = [] := by
  fun_induction climb? c with
  | case1 => cases h
  | case2 c hlast e he ih => rw [ahead_of_parent? he hlast, ih h]
  | case3 c _ hroot =>
    obtain ⟨focus, _ | ⟨f, outer⟩⟩ := c
    · rfl
    · cases hroot

/-- **A step of the walk takes the first place off.** -/
theorem remaining_of_advance? {c d : Cursor} (h : c.advance? = some d) :
    c.remaining = c.place :: d.remaining := by
  rw [advance?] at h
  cases hchild : c.firstChild? with
  | some e =>
    rw [hchild] at h
    cases h
    exact remaining_of_firstChild? hchild
  | none =>
    rw [hchild] at h
    rw [remaining_of_firstChild?_eq_none hchild, ahead_of_climb? h]

/-- The walk ends on the last place. -/
theorem remaining_of_advance?_eq_none {c : Cursor} (h : c.advance? = none) : c.remaining = [c.place] := by
  rw [advance?] at h
  cases hchild : c.firstChild? with
  | some e =>
    rw [hchild] at h
    cases h
  | none =>
    rw [hchild] at h
    rw [remaining_of_firstChild?_eq_none hchild, ahead_of_climb?_eq_none h]

/-! ## Complete walks -/

/-- **A complete walk**: it starts at a cursor, every further cursor is one step from the one before, and no
step leads on from the last. -/
inductive CompleteWalk : Cursor → List Cursor → Prop
  /-- No step leads on. -/
  | stop {c : Cursor} (h : c.advance? = none) : CompleteWalk c [c]
  /-- One step, and then a complete walk. -/
  | step {c d : Cursor} {rest : List Cursor} (h : c.advance? = some d) (hrest : CompleteWalk d rest) :
      CompleteWalk c (c :: rest)

/-- **A complete walk visits what lies ahead, in order.** -/
theorem CompleteWalk.places_eq {c : Cursor} {cs : List Cursor} (h : CompleteWalk c cs) :
    cs.map place = c.remaining := by
  induction h with
  | stop h => rw [remaining_of_advance?_eq_none h, List.map_singleton]
  | step h _ ih => rw [remaining_of_advance? h, List.map_cons, ih]

/-- The cursors of the walk from a cursor on. -/
def trail (c : Cursor) : List Cursor :=
  match _h : c.advance? with
  | some d => c :: trail d
  | none => [c]
termination_by c.pending
decreasing_by exact pending_of_advance? _h

/-- **The walk ends**, whatever the tree. -/
theorem completeWalk_trail (c : Cursor) : CompleteWalk c c.trail := by
  fun_induction trail c with
  | case1 c d h ih => exact .step h ih
  | case2 c h => exact .stop h

lemma trail_of_advance? {c d : Cursor} (h : c.advance? = some d) : c.trail = c :: d.trail := by
  rw [trail]
  split
  · next e he => rw [Option.some.inj (he.symm.trans h)]
  · next he => cases he.symm.trans h

lemma trail_of_advance?_eq_none {c : Cursor} (h : c.advance? = none) : c.trail = [c] := by
  rw [trail]
  split
  · next e he => cases he.symm.trans h
  · rfl

/-- The subtrees visited are those on which the cursors of the walk stand. -/
lemma visit_eq_map_trail (visited : List Tree) (c : Cursor) :
    visit visited c = visited.reverse ++ c.trail.map focus := by
  fun_induction visit visited c with
  | case1 visited c d h ih => simp [ih, trail_of_advance? h]
  | case2 visited c h => simp [trail_of_advance?_eq_none h]

end Cursor

namespace Tree

/-- The cursors of the walk from the root. -/
def trail (t : Tree) : List Cursor := Cursor.trail ⟨t, []⟩

/-- A walk from the root stands on every subtree, in pre-order. -/
theorem map_place_trail (t : Tree) : t.trail.map Cursor.place = t.places := by
  rw [trail, (Cursor.completeWalk_trail _).places_eq]
  simp [Cursor.remaining, Cursor.address, Cursor.addressWithin, Cursor.ahead]

/-- The subtrees visited are those on which its cursors stand. -/
lemma walk_eq_map_focus (t : Tree) : t.walk = t.trail.map Cursor.focus := by
  rw [walk, Cursor.visit_eq_map_trail, List.reverse_nil, List.nil_append, trail]

/-- **A walk from the root visits the subtrees in pre-order.** -/
theorem walk_eq_preorder (t : Tree) : t.walk = t.preorder := by
  rw [walk_eq_map_focus, ← map_snd_places, ← map_place_trail, List.map_map]
  rfl

end Tree

end CodeAtlas.Syntax
