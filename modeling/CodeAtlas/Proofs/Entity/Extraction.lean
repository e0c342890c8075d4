import CodeAtlas.Entity.Extract
import CodeAtlas.Proofs.Syntax.Walk

/-!
# Extraction follows the pre-order

The entities of a tree are those that its nodes declare, in pre-order.  A declaration is followed by the
declarations inside it, each as an entity of its own, and then by those after it.

## Main results

* `CodeAtlas.Entity.extract_eq_filterMap_preorder` — the entities of a tree, by its nodes.
* `CodeAtlas.Entity.extract_eq_append` — the entities of a tree, by those of its children.
* `CodeAtlas.Entity.extract_visits_every_node` — the walk behind an extraction visits every node once, in
  pre-order, and ends.
-/

namespace CodeAtlas.Entity

open CodeAtlas.Syntax

variable (text : List Char) (language : Language)

/-- **The entities of a tree are those that its nodes declare, in pre-order.** -/
theorem extract_eq_filterMap_preorder (t : Tree) :
    extract text language t = t.preorder.filterMap (ofTree? text language) := by
  rw [extract, Tree.walk_eq_preorder]

/-- **The entities of a tree are that of its root and then those of its children**, in order. -/
theorem extract_eq_append (t : Tree) :
    extract text language t =
      (ofTree? text language t).toList ++ t.children.flatMap (extract text language) := by
  obtain ⟨n, ts⟩ := t
  have hchildren : (Tree.preorders ts).filterMap (ofTree? text language) =
      ts.flatMap (extract text language) := by
    rw [Tree.preorders_eq_flatMap, List.filterMap_flatMap]
    exact congrArg ts.flatMap (funext fun t => (extract_eq_filterMap_preorder text language t).symm)
  rw [extract_eq_filterMap_preorder, Tree.preorder, List.filterMap_cons, hchildren]
  cases ofTree? text language (.mk n ts) <;> rfl

/-- **Extraction visits every node once, in pre-order.**  The walk from the root of a tree ends, whatever the
tree.  The addresses at which its cursors stand are strictly increasing, in the order in which an address comes
before those below it and these before those of later siblings; and they are the addresses of the nodes of the
tree, each with the subtree that is there.

So the entities of the tree are what its subtrees, listed in pre-order, declare by the rules of the language:
that of the root, if it declares one, and then those of its children, in order.

**Proof sketch.** The cursors of the walk stand at the places of the tree, each an address with the subtree there.
These are listed in the order of their addresses and are all of them, which gives the order, the completeness and
the length.  What is extracted is what the subtrees in pre-order declare. -/
theorem extract_visits_every_node (t : Tree) :
    Cursor.CompleteWalk ⟨t, []⟩ t.trail ∧
    (t.trail.map Cursor.address).Pairwise (· < ·) ∧
    (∀ a u, (∃ c ∈ t.trail, c.address = a ∧ c.focus = u) ↔ Tree.subtree? a t = some u) ∧
    t.walk = t.trail.map Cursor.focus ∧ t.walk = t.preorder ∧ t.walk.length = t.size ∧
    extract text language t = t.preorder.filterMap (fun u =>
      (Language.classify language.rules u).map fun kind => ofTree text language kind u) ∧
    extract text language t =
      (ofTree? text language t).toList ++ t.children.flatMap (extract text language) := by
  have hplaces := t.map_place_trail
  refine ⟨Cursor.completeWalk_trail _, ?_, fun a u => ?_, t.walk_eq_map_focus, t.walk_eq_preorder, ?_,
    extract_eq_filterMap_preorder text language t, extract_eq_append text language t⟩
  · have hsorted := t.pairwise_places
    rw [← hplaces, List.pairwise_map] at hsorted
    rw [List.pairwise_map]
    exact hsorted
  · rw [← Tree.mem_places, ← hplaces, List.mem_map]
    simp only [Cursor.place, Prod.mk.injEq]
  · rw [t.walk_eq_preorder, Tree.length_preorder]

end CodeAtlas.Entity
