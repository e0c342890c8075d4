import Mathlib.Data.Prod.Lex
import CodeAtlas.Graph.Memory
import CodeAtlas.Proofs.Table

/-!
# The theory of the contents of the graph

How files, entities and edges change when something is stored.  Whatever is stored about different files
may be stored in either order, as long as no two of the entities share an identity.

## Main definitions

* `CodeAtlas.Graph.Memory.Contents.Sorted` — files, entities and edges are in order.

## Main results

* `CodeAtlas.Graph.Edge.mem_insert`, `CodeAtlas.Graph.Edge.insert_comm` — edges form a set.
* `CodeAtlas.Graph.Memory.Contents.putFile_comm`, `CodeAtlas.Graph.Memory.Contents.putEntity_comm`,
  `CodeAtlas.Graph.Memory.Contents.putEntity_putFile_comm` — independent changes may be swapped.
* `CodeAtlas.Graph.Memory.Contents.Sorted.ext` — sorted contents are known by what they answer.
* `CodeAtlas.Graph.Memory.Contents.applyAll_append` — statements are applied one after the other.
-/

namespace CodeAtlas.Graph

/-! ## Edges -/

namespace Edge

/-- Edges are ordered by path and then by identity. -/
theorem before_iff (a b : Edge) : a.before b = true ↔ toLex a < toLex b := by
  rw [Edge.before, Prod.Lex.lt_iff, Bool.or_eq_true, Bool.and_eq_true, beq_iff_eq,
    decide_eq_true_iff, decide_eq_true_iff]
  rfl

/-- An edge does not stand before itself. -/
theorem not_before_self (a : Edge) : ¬ a.before a = true := by
  rw [before_iff]
  exact lt_irrefl _

/-- The order of edges is transitive. -/
theorem before_trans {a b d : Edge} (h : a.before b = true) (h' : b.before d = true) :
    a.before d = true := by
  rw [before_iff] at h h' ⊢
  exact lt_trans h h'

/-- Of two different edges one stands before the other. -/
theorem before_trichotomy (a b : Edge) : a.before b = true ∨ a = b ∨ b.before a = true := by
  rw [before_iff, before_iff]
  rcases lt_trichotomy (toLex a) (toLex b) with h | h | h
  · exact Or.inl h
  · exact Or.inr (Or.inl (toLex.injective h))
  · exact Or.inr (Or.inr h)

/-- Of two edges at most one stands before the other. -/
theorem not_before_of_before {a b : Edge} (h : a.before b = true) : ¬ b.before a = true :=
  fun h' => not_before_self a (before_trans h h')

/-- Edges of one file are ordered by identity. -/
theorem snd_lt_of_before {a b : Edge} (h : a.before b = true) (hpath : a.1 = b.1) : a.2 < b.2 := by
  rw [before_iff, Prod.Lex.lt_iff] at h
  rcases h with hlt | ⟨-, hlt⟩
  · exact absurd hpath (ne_of_lt hlt)
  · exact hlt

/-- The edges after an insertion. -/
theorem mem_insert {d e : Edge} {es : List Edge} : d ∈ Edge.insert e es ↔ d = e ∨ d ∈ es := by
  induction es with
  | nil => simp [Edge.insert]
  | cons a rest ih =>
    rw [Edge.insert]
    split_ifs with hbefore heq
    · rw [List.mem_cons, ih, List.mem_cons, or_left_comm]
    · rw [heq, List.mem_cons, ← or_assoc, or_self]
    · rw [List.mem_cons]

/-- Insertions keep the edges in order.

**Proof sketch.** Induction on the edges.  The new edge goes before the first one that it comes before; it then
comes before all later ones, by transitivity. -/
theorem pairwise_insert {e : Edge} {es : List Edge} (h : es.Pairwise fun a b => a.before b = true) :
    (Edge.insert e es).Pairwise fun a b => a.before b = true := by
  induction es with
  | nil => exact List.pairwise_singleton _ _
  | cons a rest ih =>
    obtain ⟨hhead, htail⟩ := List.pairwise_cons.mp h
    rw [Edge.insert]
    split_ifs with hbefore heq
    · refine List.pairwise_cons.mpr ⟨fun d hd => ?_, ih htail⟩
      rcases mem_insert.mp hd with rfl | hd
      · exact hbefore
      · exact hhead d hd
    · exact h
    · have hea : e.before a = true :=
        ((before_trichotomy a e).resolve_left hbefore).resolve_left heq
      refine List.pairwise_cons.mpr ⟨fun d hd => ?_, h⟩
      rcases List.mem_cons.mp hd with rfl | hd
      · exact hea
      · exact before_trans hea (hhead d hd)

/-- Insertions of edges may be swapped, if the first stands before the second. -/
private lemma insert_comm_of_before {d e : Edge} (h : d.before e = true) (es : List Edge) :
    Edge.insert d (Edge.insert e es) = Edge.insert e (Edge.insert d es) := by
  have hed : ¬ e.before d = true := not_before_of_before h
  have hne : e ≠ d := fun heq => not_before_self d (heq ▸ h)
  induction es with
  | nil => simp only [Edge.insert, if_pos h, if_neg hed, if_neg hne]
  | cons a rest ih =>
    rcases before_trichotomy a d with had | rfl | had
    · have hae : a.before e = true := before_trans had h
      simp only [Edge.insert, if_pos had, if_pos hae, ih]
    · simp only [Edge.insert, if_pos h, if_neg (not_before_self a), if_true]
    · have had' : ¬ a.before d = true := not_before_of_before had
      have hne' : a ≠ d := fun heq => not_before_self d (heq ▸ had)
      by_cases hae : a.before e = true
      · simp only [Edge.insert, if_pos hae, if_neg had', if_neg hne', if_pos h]
      · by_cases heq : a = e
        · simp only [Edge.insert, if_neg hae, if_pos heq, if_neg had', if_neg hne', if_pos h]
        · simp only [Edge.insert, if_neg hae, if_neg heq, if_neg had', if_neg hne', if_neg hed,
            if_neg hne, if_pos h]

/-- **Insertions of edges may be swapped.** -/
theorem insert_comm (d e : Edge) (es : List Edge) :
    Edge.insert d (Edge.insert e es) = Edge.insert e (Edge.insert d es) := by
  rcases before_trichotomy d e with h | rfl | h
  · exact insert_comm_of_before h es
  · rfl
  · exact (insert_comm_of_before h es).symm

end Edge

/-! ## Files and entities -/

namespace Memory.Contents

/-- The files after a file is stored. -/
theorem contains_putFile (c : Contents) (path other : String) (now : Json) :
    (c.putFile path now).files.contains other =
      (decide (other = path) || c.files.contains other) := by
  rw [putFile]
  split_ifs with h
  · by_cases ho : other = path
    · rw [ho, h, Bool.or_true]
    · rw [decide_eq_false ho, Bool.false_or]
  · exact Table.contains_insert path other now c.files

/-- A file that is stored is there. -/
@[simp] theorem contains_putFile_self (c : Contents) (path : String) (now : Json) :
    (c.putFile path now).files.contains path = true := by
  rw [contains_putFile, decide_eq_true rfl, Bool.true_or]

/-- Storing a file leaves the entities alone. -/
@[simp] theorem entities_putFile (c : Contents) (path : String) (now : Json) :
    (c.putFile path now).entities = c.entities := by
  rw [putFile]; split_ifs <;> rfl

/-- Storing a file leaves the edges alone. -/
@[simp] theorem edges_putFile (c : Contents) (path : String) (now : Json) :
    (c.putFile path now).contains = c.contains := by
  rw [putFile]; split_ifs <;> rfl

/-- A file that is known is not changed. -/
theorem putFile_of_contains {c : Contents} {path : String} (h : c.files.contains path = true)
    (now : Json) : c.putFile path now = c := by
  rw [putFile, if_pos h]

/-- Storing an entity leaves the files alone. -/
@[simp] theorem files_putEntity (c : Contents) (path uid : String) (now : Json)
    (props : Table Json) : (c.putEntity path uid now props).files = c.files := by
  rw [putEntity]; split_ifs <;> rfl

/-- Different files may be stored in either order. -/
theorem putFile_comm {p q : String} (h : p ≠ q) (c : Contents) (x y : Json) :
    (c.putFile p x).putFile q y = (c.putFile q y).putFile p x := by
  have hp := contains_putFile c q p y
  have hq := contains_putFile c p q x
  rw [decide_eq_false h, Bool.false_or] at hp
  rw [decide_eq_false h.symm, Bool.false_or] at hq
  by_cases hcp : c.files.contains p = true
  · rw [putFile_of_contains hcp, putFile_of_contains (hp.trans hcp)]
  · by_cases hcq : c.files.contains q = true
    · rw [putFile_of_contains hcq, putFile_of_contains (hq.trans hcq)]
    · rw [putFile, if_neg (hq ▸ hcq), putFile, if_neg hcp, putFile, if_neg (hp ▸ hcp), putFile,
        if_neg hcq, Table.insert_comm h.symm]

/-- The node under which an entity is stored. -/
def node (c : Contents) (uid : String) (now : Json) (props : Table Json) : Table Json :=
  (props.insert "uid" (.str uid)).insert "created" (c.createdOr uid now)

/-- What storing an entity of a known file does. -/
theorem putEntity_of_contains {c : Contents} {path : String} (h : c.files.contains path = true)
    (uid : String) (now : Json) (props : Table Json) :
    c.putEntity path uid now props =
      { files := c.files
        entities := c.entities.insert uid (c.node uid now props)
        contains := Edge.insert (path, uid) c.contains } := by
  rw [putEntity, if_pos h]
  rfl

/-- An entity of an unknown file is not stored. -/
theorem putEntity_of_not_contains {c : Contents} {path : String}
    (h : ¬ c.files.contains path = true) (uid : String) (now : Json) (props : Table Json) :
    c.putEntity path uid now props = c := by
  rw [putEntity, if_neg h]

/-- The node of an entity depends on nothing but the entity that is stored under its identity. -/
theorem node_congr {c d : Contents} {uid : String} (h : c.entities.get? uid = d.entities.get? uid)
    (now : Json) (props : Table Json) : c.node uid now props = d.node uid now props := by
  rw [node, node, createdOr, createdOr, h]

/-- Entities with different identities may be stored in either order.

**Proof sketch.** Without one of the files one of the two insertions does nothing.  Otherwise neither changes the
date that the other finds, since the identities differ, and insertions under different keys commute. -/
theorem putEntity_comm {p q u v : String} (h : u ≠ v) (c : Contents) (x y : Json)
    (a b : Table Json) :
    (c.putEntity p u x a).putEntity q v y b = (c.putEntity q v y b).putEntity p u x a := by
  by_cases hp : c.files.contains p = true
  · by_cases hq : c.files.contains q = true
    · -- neither insertion is seen by the date of the other
      have hv : (c.putEntity p u x a).node v y b = c.node v y b := by
        refine node_congr ?_ y b
        rw [putEntity_of_contains hp]
        exact Table.get?_insert_of_ne h.symm _ _
      have hu : (c.putEntity q v y b).node u x a = c.node u x a := by
        refine node_congr ?_ x a
        rw [putEntity_of_contains hq]
        exact Table.get?_insert_of_ne h _ _
      rw [putEntity_of_contains (c := c.putEntity p u x a) (by rw [files_putEntity]; exact hq),
        putEntity_of_contains (c := c.putEntity q v y b) (by rw [files_putEntity]; exact hp),
        hu, hv, putEntity_of_contains hp, putEntity_of_contains hq, Table.insert_comm h.symm,
        Edge.insert_comm]
    · rw [putEntity_of_not_contains (c := c.putEntity p u x a) (by rw [files_putEntity]; exact hq),
        putEntity_of_not_contains hq]
  · rw [putEntity_of_not_contains (c := c.putEntity q v y b) (by rw [files_putEntity]; exact hp),
      putEntity_of_not_contains hp]

/-- A file and an entity of another file may be stored in either order. -/
theorem putEntity_putFile_comm {p q : String} (h : p ≠ q) (c : Contents) (u : String) (x y : Json)
    (a : Table Json) :
    (c.putEntity p u x a).putFile q y = (c.putFile q y).putEntity p u x a := by
  have hp := contains_putFile c q p y
  rw [decide_eq_false h, Bool.false_or] at hp
  by_cases hcp : c.files.contains p = true
  · have hu : (c.putFile q y).node u x a = c.node u x a :=
      node_congr (by rw [entities_putFile]) x a
    rw [putEntity_of_contains hcp, putEntity_of_contains (hp.trans hcp), hu, entities_putFile,
      edges_putFile, putFile, putFile]
    split_ifs <;> rfl
  · rw [putEntity_of_not_contains hcp, putEntity_of_not_contains (hp ▸ hcp)]

/-! ## Sorted contents -/

/-- Files, entities and edges are in order. -/
structure Sorted (c : Contents) : Prop where
  /-- Files are in the order of their paths. -/
  files : c.files.Ordered
  /-- Entities are in the order of their identities. -/
  entities : c.entities.Ordered
  /-- Edges are in their order. -/
  edges : c.contains.Pairwise fun a b => a.before b = true

namespace Sorted

/-- The empty graph. -/
theorem empty : Sorted {} := ⟨List.Pairwise.nil, List.Pairwise.nil, List.Pairwise.nil⟩

variable {c d : Contents}

/-- Storing a file keeps the order. -/
theorem putFile (h : c.Sorted) (path : String) (now : Json) : (c.putFile path now).Sorted := by
  rw [Contents.putFile]
  split_ifs
  · exact h
  · exact ⟨h.files.insert path now, h.entities, h.edges⟩

/-- Storing an entity keeps the order. -/
theorem putEntity (h : c.Sorted) (path uid : String) (now : Json) (props : Table Json) :
    (c.putEntity path uid now props).Sorted := by
  by_cases hfile : c.files.contains path = true
  · rw [putEntity_of_contains hfile]
    exact ⟨h.files, h.entities.insert _ _, Edge.pairwise_insert h.edges⟩
  · rw [putEntity_of_not_contains hfile]
    exact h

/-- **Sorted contents are known by what they answer.** -/
theorem ext (hc : c.Sorted) (hd : d.Sorted) (hfiles : ∀ path, c.files.get? path = d.files.get? path)
    (hentities : ∀ uid, c.entities.get? uid = d.entities.get? uid)
    (hedges : ∀ e, e ∈ c.contains ↔ e ∈ d.contains) : c = d := by
  have : Std.Irrefl fun a b : Edge => a.before b = true := ⟨Edge.not_before_self⟩
  have : Std.Antisymm fun a b : Edge => a.before b = true :=
    ⟨fun a b hab hba => absurd hba (Edge.not_before_of_before hab)⟩
  have hcontains : c.contains = d.contains := List.Pairwise.eq_of_mem_iff hc.edges hd.edges hedges
  obtain ⟨files, entities, contains⟩ := c
  obtain ⟨files', entities', contains'⟩ := d
  simp only [Contents.mk.injEq]
  exact ⟨hc.files.ext hd.files hfiles, hc.entities.ext hd.entities hentities, hcontains⟩

end Sorted

/-! ## Statements applied in order -/

/-- Statements are applied one after the other. -/
theorem applyAll_append (c : Contents) (xs ys : List (Statement × Params)) :
    c.applyAll (xs ++ ys) = (c.applyAll xs).bind fun d => d.applyAll ys := by
  induction xs generalizing c with
  | nil => rfl
  | cons w rest ih =>
    obtain ⟨statement, params⟩ := w
    rw [List.cons_append, applyAll, applyAll]
    cases c.apply statement params with
    | error f => rfl
    | ok d => exact ih d

end Memory.Contents

end CodeAtlas.Graph
