import Mathlib.Data.List.Basic
import Mathlib.Logic.Relation
import CodeAtlas.Syntax.Tree

/-!
# Subtrees and their addresses

The same subtree may occur in a tree more than once.  Its occurrences are told apart by their addresses: the
numbers of the children that lead there from the root.  In lexicographic order an address comes before those
that continue it, and these come before the addresses of later siblings, so that this order is pre-order.

## Main definitions

* `CodeAtlas.Syntax.Tree.subtree?` — the subtree at an address.
* `CodeAtlas.Syntax.Tree.places` — all subtrees with their addresses, in pre-order.
* `CodeAtlas.Syntax.Tree.Child` — a tree and one of its children.

## Main results

* `CodeAtlas.Syntax.Tree.mem_places` — every subtree is listed with its address, and nothing else is.
* `CodeAtlas.Syntax.Tree.pairwise_places` — the addresses are strictly increasing.
* `CodeAtlas.Syntax.Tree.map_snd_places` — without their addresses the subtrees are those of `preorder`.
* `CodeAtlas.Syntax.Tree.mem_preorder` — the subtrees are what children lead to.
-/

namespace CodeAtlas.Syntax.Tree

/-! ## Addresses -/

/-- The subtree at an address. -/
def subtree? : List Nat → Tree → Option Tree
  | [], t => some t
  | k :: a, t => t.children[k]?.bind (subtree? a)

/-- Places below the node at an address. -/
def under (a : List Nat) (places : List (List Nat × Tree)) : List (List Nat × Tree) :=
  places.map fun p => (a ++ p.1, p.2)

mutual

/-- All subtrees with their addresses: the tree itself, then those of its children in order. -/
def places : Tree → List (List Nat × Tree)
  | .mk n ts => ([], .mk n ts) :: placesFrom 0 ts

/-- All subtrees of some siblings, of which the first is child number `k`. -/
def placesFrom : Nat → List Tree → List (List Nat × Tree)
  | _, [] => []
  | k, t :: ts => under [k] t.places ++ placesFrom (k + 1) ts

end

/-- The subtrees of some trees are those of each of them, in order. -/
lemma preorders_eq_flatMap (ts : List Tree) : preorders ts = ts.flatMap preorder := by
  induction ts with
  | nil => rw [preorders, List.flatMap_nil]
  | cons t ts ih => rw [preorders, ih, List.flatMap_cons]

@[simp] lemma under_cons (a : List Nat) (p : List Nat × Tree) (ps : List (List Nat × Tree)) :
    under a (p :: ps) = (a ++ p.1, p.2) :: under a ps := rfl

@[simp] lemma under_append (a : List Nat) (ps qs : List (List Nat × Tree)) :
    under a (ps ++ qs) = under a ps ++ under a qs := List.map_append

@[simp] lemma under_nil (ps : List (List Nat × Tree)) : under [] ps = ps := List.map_id ps

/-- A place below a place. -/
lemma under_under (a b : List Nat) (ps : List (List Nat × Tree)) :
    under a (under b ps) = under (a ++ b) ps := by
  simp [under]

@[simp] lemma map_snd_under (a : List Nat) (ps : List (List Nat × Tree)) :
    (under a ps).map Prod.snd = ps.map Prod.snd := by
  simp [under, Function.comp_def]

mutual

/-- **Without their addresses the subtrees are those of the pre-order.** -/
theorem map_snd_places : ∀ t : Tree, t.places.map Prod.snd = t.preorder
  | .mk n ts => by rw [places, preorder, List.map_cons, map_snd_placesFrom 0 ts]

/-- So are those of some siblings. -/
theorem map_snd_placesFrom : ∀ (k : Nat) (ts : List Tree),
    (placesFrom k ts).map Prod.snd = preorders ts
  | k, [] => by rw [placesFrom, preorders, List.map_nil]
  | k, t :: ts => by
    rw [placesFrom, preorders, List.map_append, map_snd_under, map_snd_places t,
      map_snd_placesFrom (k + 1) ts]

end

mutual

/-- There is one subtree for each node. -/
theorem length_preorder : ∀ t : Tree, t.preorder.length = t.size
  | .mk n ts => by rw [preorder, size, List.length_cons, length_preorders ts, Nat.add_comm]

/-- There is one subtree for each node of some trees. -/
theorem length_preorders : ∀ ts : List Tree, (preorders ts).length = sizes ts
  | [] => by rw [preorders, sizes, List.length_nil]
  | t :: ts => by rw [preorders, sizes, List.length_append, length_preorder t, length_preorders ts]

end

mutual

/-- **Every subtree is listed with its address, and nothing else is.** -/
theorem mem_places : ∀ (t : Tree) (a : List Nat) (u : Tree), (a, u) ∈ t.places ↔ subtree? a t = some u
  | .mk n ts, [], u => by
    rw [places, List.mem_cons, mem_placesFrom 0 ts, subtree?, Option.some.injEq, Prod.mk.injEq]
    simp [eq_comm]
  | .mk n ts, k :: a, u => by
    rw [places, List.mem_cons, mem_placesFrom 0 ts, subtree?]
    simp [children]

/-- A subtree of some siblings is at an address that starts with the number of a sibling.

**Proof sketch.** Induction on the siblings, together with the statement about one tree.  The first sibling has the
first number, and the later ones are counted on from it. -/
theorem mem_placesFrom : ∀ (k : Nat) (ts : List Tree) (a : List Nat) (u : Tree),
    (a, u) ∈ placesFrom k ts ↔ ∃ j b, a = (k + j) :: b ∧ ts[j]?.bind (subtree? b) = some u
  | k, [], a, u => by simp [placesFrom]
  | k, t :: ts, a, u => by
    rw [placesFrom, List.mem_append, mem_placesFrom (k + 1) ts, under, List.mem_map]
    constructor
    · rintro (⟨⟨b, v⟩, hmem, heq⟩ | ⟨j, b, rfl, hsub⟩)
      · obtain ⟨rfl, rfl⟩ := Prod.mk.inj heq
        exact ⟨0, b, rfl, (mem_places t b v).mp hmem⟩
      · exact ⟨j + 1, b, by rw [Nat.add_assoc, Nat.add_comm 1], hsub⟩
    · rintro ⟨j, b, rfl, hsub⟩
      cases j with
      | zero => exact .inl ⟨(b, u), (mem_places t b u).mpr hsub, rfl⟩
      | succ j => exact .inr ⟨j, b, by rw [Nat.add_assoc, Nat.add_comm 1], hsub⟩

end

/-- Addresses below one address are in the order of what follows it. -/
lemma pairwise_under (a : List Nat) {ps : List (List Nat × Tree)}
    (h : ps.Pairwise fun p q => p.1 < q.1) : (under a ps).Pairwise fun p q => p.1 < q.1 := by
  rw [under, List.pairwise_map]
  exact h.imp fun hlt => List.append_left_lt hlt

mutual

/-- **The addresses are strictly increasing.**  The address of a node comes before those below it, and these
before those of later siblings. -/
theorem pairwise_places : ∀ t : Tree, t.places.Pairwise fun p q => p.1 < q.1
  | .mk n ts => by
    rw [places, List.pairwise_cons]
    refine ⟨fun ⟨a, u⟩ hmem => ?_, pairwise_placesFrom 0 ts⟩
    obtain ⟨j, b, rfl, -⟩ := (mem_placesFrom 0 ts a u).mp hmem
    exact List.nil_lt_cons _ _

/-- The addresses below some siblings are strictly increasing. -/
theorem pairwise_placesFrom : ∀ (k : Nat) (ts : List Tree),
    (placesFrom k ts).Pairwise fun p q => p.1 < q.1
  | k, [] => by
    rw [placesFrom]
    exact .nil
  | k, t :: ts => by
    rw [placesFrom, List.pairwise_append]
    refine ⟨pairwise_under [k] (pairwise_places t), pairwise_placesFrom (k + 1) ts, ?_⟩
    rintro p hp ⟨a, u⟩ hq
    obtain ⟨q, -, rfl⟩ := List.mem_map.mp hp
    obtain ⟨j, b, rfl, -⟩ := (mem_placesFrom (k + 1) ts a u).mp hq
    exact List.cons_lt_cons_iff.mpr (.inl (by omega))

end

/-! ## Descent -/

/-- The second is a child of the first. -/
def Child (t u : Tree) : Prop := u ∈ t.children

/-- The subtrees listed are those that have an address. -/
lemma mem_preorder_iff_exists_subtree? (t u : Tree) : u ∈ t.preorder ↔ ∃ a, subtree? a t = some u := by
  rw [← map_snd_places, List.mem_map]
  constructor
  · rintro ⟨⟨a, v⟩, hmem, rfl⟩
    exact ⟨a, (mem_places t a v).mp hmem⟩
  · rintro ⟨a, h⟩
    exact ⟨(a, u), (mem_places t a u).mpr h, rfl⟩

/-- **The subtrees are what children lead to.**

**Proof sketch.** An address leads from the root through one child for each of its numbers; and a child has a
number. -/
theorem mem_preorder (t u : Tree) : u ∈ t.preorder ↔ Relation.ReflTransGen Child t u := by
  rw [mem_preorder_iff_exists_subtree?]
  constructor
  · rintro ⟨a, h⟩
    induction a generalizing t with
    | nil =>
      obtain rfl := Option.some.inj h
      exact .refl
    | cons k a ih =>
      obtain ⟨c, hc, hu⟩ := Option.bind_eq_some_iff.mp h
      exact .head (List.mem_of_getElem? hc) (ih c hu)
  · intro h
    induction h using Relation.ReflTransGen.head_induction_on with
    | refl => exact ⟨[], rfl⟩
    | head hc _ ih =>
      obtain ⟨a, ha⟩ := ih
      obtain ⟨k, hk⟩ := List.mem_iff_getElem?.mp hc
      exact ⟨k :: a, by rw [subtree?, hk, Option.bind_some, ha]⟩

/-- A tree is one of its subtrees. -/
lemma self_mem_preorder (t : Tree) : t ∈ t.preorder := (mem_preorder t t).mpr .refl

/-- A child of a subtree is a subtree. -/
lemma mem_preorder_of_mem_children {t u c : Tree} (hu : u ∈ t.preorder) (hc : c ∈ u.children) :
    c ∈ t.preorder :=
  (mem_preorder t c).mpr (((mem_preorder t u).mp hu).tail hc)

end CodeAtlas.Syntax.Tree
