import CodeAtlas.Proofs.Graph.Change
import CodeAtlas.Proofs.Graph.Replay
import CodeAtlas.Proofs.Graph.Versions

/-!
# The graph fits together and only grows

Statements of any text and with any parameters reach the graph in memory, outside transactions or through
their commits.  Some name a file that is not there, some name the identity of an entity of another file, and
some bring properties that are called `uid` or `created`.  Whatever they are, edges lead from stored files to
stored entities, every entity has an edge and knows its own identity and a date, nothing that is stored is
ever lost, and no date ever changes.

Both facts are about single changes.  They hold of histories because a later graph is made from an earlier
one by some changes.

## Main definitions

* `CodeAtlas.Graph.Memory.Contents.Linked` — files, entities and edges fit together.
* `CodeAtlas.Graph.Memory.Contents.GrowsInto` — nothing is lost and no date changes.

## Main results

* `CodeAtlas.Graph.Memory.Contents.Linked.make`, `CodeAtlas.Graph.Memory.Contents.Linked.growsInto_make` —
  what one change keeps.
* `CodeAtlas.Graph.exists_changes` — a later graph is made from an earlier one by some changes.
* `CodeAtlas.Graph.history_linked_and_growing` — the graph fits together after every history, and only grows.
-/

namespace CodeAtlas.Graph

open Memory (Contents Change makeAll)

namespace Memory.Contents

/-- **Files, entities and edges fit together.** -/
structure Linked (c : Contents) : Prop where
  /-- Everything is kept in order, hence once. -/
  sorted : c.Sorted
  /-- An edge starts at a stored file. -/
  source : ∀ {path uid}, (path, uid) ∈ c.contains → c.files.contains path = true
  /-- It ends at a stored entity. -/
  target : ∀ {path uid}, (path, uid) ∈ c.contains → c.entities.contains uid = true
  /-- At every stored entity some edge ends. -/
  owned : ∀ {uid node}, c.entities.get? uid = some node → ∃ path, (path, uid) ∈ c.contains
  /-- An entity knows the identity under which it is stored. -/
  named : ∀ {uid node}, c.entities.get? uid = some node → node.get? "uid" = some (.str uid)
  /-- An entity has a date. -/
  dated : ∀ {uid node}, c.entities.get? uid = some node → ∃ date, node.get? "created" = some date

/-- **Nothing is lost and no date changes** from one graph to another. -/
structure GrowsInto (c d : Contents) : Prop where
  /-- A file stays, with its date. -/
  files : ∀ {path date}, c.files.get? path = some date → d.files.get? path = some date
  /-- An entity stays, with its date. -/
  entities : ∀ {uid node}, c.entities.get? uid = some node →
    ∃ node', d.entities.get? uid = some node' ∧ node'.get? "created" = node.get? "created"
  /-- An edge stays. -/
  edges : ∀ {e}, e ∈ c.contains → e ∈ d.contains

namespace GrowsInto

variable {b c d : Contents}

/-- A graph grows into itself. -/
theorem refl (c : Contents) : c.GrowsInto c where
  files h := h
  entities h := ⟨_, h, rfl⟩
  edges h := h

/-- Growth goes on. -/
theorem trans (h : b.GrowsInto c) (h' : c.GrowsInto d) : b.GrowsInto d where
  files hfile := h'.files (h.files hfile)
  entities hnode := by
    obtain ⟨node', hnode', hdate'⟩ := h.entities hnode
    obtain ⟨node'', hnode'', hdate''⟩ := h'.entities hnode'
    exact ⟨node'', hnode'', hdate''.trans hdate'⟩
  edges hedge := h'.edges (h.edges hedge)

end GrowsInto

/-! ## The node of an entity -/

/-- The node of an entity has its identity, whatever the properties say. -/
lemma get?_uid_node (c : Contents) (uid : String) (now : Json) (props : Table Json) :
    (c.node uid now props).get? "uid" = some (.str uid) := by
  rw [node, Table.get?_insert, if_neg (by decide), Table.get?_insert_self]

/-- The node of an entity has its date, whatever the properties say. -/
lemma get?_created_node (c : Contents) (uid : String) (now : Json) (props : Table Json) :
    (c.node uid now props).get? "created" = some (c.createdOr uid now) :=
  Table.get?_insert_self _ _ _

/-- The date of an entity that has one is kept. -/
lemma createdOr_of_get? {c : Contents} {uid : String} {node : Table Json} {date : Json}
    (hnode : c.entities.get? uid = some node) (hdate : node.get? "created" = some date) (now : Json) :
    c.createdOr uid now = date := by
  simp [createdOr, hnode, hdate]

namespace Linked

variable {c : Contents}

/-- The empty graph. -/
theorem empty : Linked {} where
  sorted := Sorted.empty
  source h := nomatch h
  target h := nomatch h
  owned h := nomatch h
  named h := nomatch h
  dated h := nomatch h

/-! ## Files -/

/-- Storing a file keeps the graph together. -/
theorem putFile (h : c.Linked) (path : String) (now : Json) : (c.putFile path now).Linked where
  sorted := h.sorted.putFile path now
  source hedge := by
    rw [edges_putFile] at hedge
    rw [contains_putFile, h.source hedge, Bool.or_true]
  target hedge := by
    rw [edges_putFile] at hedge
    rw [entities_putFile]
    exact h.target hedge
  owned hnode := by
    rw [entities_putFile] at hnode
    rw [edges_putFile]
    exact h.owned hnode
  named hnode := h.named (entities_putFile c path now ▸ hnode)
  dated hnode := h.dated (entities_putFile c path now ▸ hnode)

/-- Storing a file loses nothing, and a file that is known keeps its date. -/
theorem growsInto_putFile (c : Contents) (path : String) (now : Json) :
    c.GrowsInto (c.putFile path now) where
  files hfile := by rw [get?_files_putFile, hfile, Option.some_or]
  entities {uid node} hnode := ⟨node, by rw [entities_putFile]; exact hnode, rfl⟩
  edges hedge := by rw [edges_putFile]; exact hedge

/-! ## Entities -/

/-- Storing an entity keeps the graph together.

**Proof sketch.** Without the file nothing changes.  With it, what is stored under an identity is the new node or
what was there before, and an edge is the new one or an old one; so each part of the invariant is checked for the
new node, and holds for the others as before. -/
theorem putEntity (h : c.Linked) (path uid : String) (now : Json) (props : Table Json) :
    (c.putEntity path uid now props).Linked := by
  have hsorted := h.sorted.putEntity path uid now props
  by_cases hfile : c.files.contains path = true
  · rw [putEntity_of_contains hfile] at hsorted ⊢
    -- what is stored under an identity is the new node or what was there
    have hnode : ∀ {u n}, Table.get? u (c.entities.insert uid (c.node uid now props)) = some n →
        u = uid ∧ n = c.node uid now props ∨ u ≠ uid ∧ c.entities.get? u = some n := by
      intro u n hget
      rw [Table.get?_insert] at hget
      split_ifs at hget with hu
      · exact Or.inl ⟨hu, (Option.some.inj hget).symm⟩
      · exact Or.inr ⟨hu, hget⟩
    refine ⟨hsorted, ?_, ?_, ?_, ?_, ?_⟩
    · intro p u hedge
      rcases Edge.mem_insert.mp hedge with hnew | hold
      · obtain ⟨rfl, rfl⟩ := Prod.mk.inj hnew
        exact hfile
      · exact h.source hold
    · intro p u hedge
      rw [Table.contains_insert, Bool.or_eq_true, decide_eq_true_iff]
      rcases Edge.mem_insert.mp hedge with hnew | hold
      · exact Or.inl (Prod.mk.inj hnew).2
      · exact Or.inr (h.target hold)
    · intro u n hget
      rcases hnode hget with ⟨rfl, -⟩ | ⟨-, hold⟩
      · exact ⟨path, Edge.mem_insert.mpr (Or.inl rfl)⟩
      · obtain ⟨p, hp⟩ := h.owned hold
        exact ⟨p, Edge.mem_insert.mpr (Or.inr hp)⟩
    · intro u n hget
      rcases hnode hget with ⟨rfl, rfl⟩ | ⟨-, hold⟩
      · exact get?_uid_node c u now props
      · exact h.named hold
    · intro u n hget
      rcases hnode hget with ⟨rfl, rfl⟩ | ⟨-, hold⟩
      · exact ⟨_, get?_created_node c u now props⟩
      · exact h.dated hold
  · rw [putEntity_of_not_contains hfile]
    exact h

/-- Storing an entity loses nothing.  An entity that is known keeps its date, because it has one.

**Proof sketch.** Without the file nothing changes.  An entity that was there has a date, by the invariant, and the
node that takes its place is given this date; all other entities, and the edges, stay. -/
theorem growsInto_putEntity (h : c.Linked) (path uid : String) (now : Json) (props : Table Json) :
    c.GrowsInto (c.putEntity path uid now props) := by
  by_cases hfile : c.files.contains path = true
  · rw [putEntity_of_contains hfile]
    refine ⟨fun hdate => hdate, ?_, fun hedge => Edge.mem_insert.mpr (Or.inr hedge)⟩
    intro u n hn
    by_cases hu : u = uid
    · subst hu
      obtain ⟨date, hdate⟩ := h.dated hn
      refine ⟨c.node u now props, Table.get?_insert_self _ _ _, ?_⟩
      rw [get?_created_node, createdOr_of_get? hn hdate, hdate]
    · exact ⟨n, by rw [Table.get?_insert_of_ne hu]; exact hn, rfl⟩
  · rw [putEntity_of_not_contains hfile]
    exact GrowsInto.refl c

/-! ## Changes -/

/-- **Every change keeps the graph together.** -/
theorem make (h : c.Linked) (change : Change) : (change.make c).Linked := by
  cases change with
  | nothing => exact h
  | file path now => exact h.putFile path now
  | entity path uid now props => exact h.putEntity path uid now props

/-- **No change loses anything or dates anything anew.** -/
theorem growsInto_make (h : c.Linked) (change : Change) : c.GrowsInto (change.make c) := by
  cases change with
  | nothing => exact GrowsInto.refl c
  | file path now => exact growsInto_putFile c path now
  | entity path uid now props => exact h.growsInto_putEntity path uid now props

/-- Changes keep the graph together. -/
theorem makeAll (h : c.Linked) (changes : List Change) : (makeAll changes c).Linked :=
  makeAll_induction (fun change _ hc => hc.make change) changes h

/-- Changes lose nothing. -/
theorem growsInto_makeAll (h : c.Linked) (changes : List Change) :
    c.GrowsInto (Memory.makeAll changes c) := by
  induction changes generalizing c with
  | nil => exact GrowsInto.refl c
  | cons first rest ih => exact (h.growsInto_make first).trans (ih (h.make first))

end Linked

end Memory.Contents

/-! ## Histories -/

/-- **A later graph is made from an earlier one by some changes.**

**Proof sketch.** The graph is the replay of what was committed, and what was committed earlier is the first
part of what was committed later. -/
theorem exists_changes (events later : List Event) :
    ∃ changes, (history (events ++ later)).2.state.contents =
      makeAll changes (history events).2.state.contents := by
  obtain ⟨added, hadded⟩ := committed_history events later
  have hbefore : Contents.applyAll {} _ = _ := (describes_history events).contents
  have hafter : Contents.applyAll {} _ = _ := (describes_history (events ++ later)).contents
  rw [← hadded, Contents.applyAll_append, hbefore, Except.bind, Contents.applyAll_eq] at hafter
  cases hchanges : added.mapM Memory.meaning with
  | error f => simp [hchanges, Except.map] at hafter
  | ok changes =>
    simp only [hchanges, Except.map, Except.ok.injEq] at hafter
    exact ⟨changes, hafter.symm⟩

/-- Every history keeps the graph together. -/
theorem linked_history (events : List Event) : (history events).2.state.contents.Linked := by
  obtain ⟨changes, hchanges⟩ := exists_changes [] events
  rw [List.nil_append] at hchanges
  rw [hchanges]
  exact Contents.Linked.empty.makeAll changes

/-- **The graph fits together after every history, and only grows.**  Statements may have any text and any
parameters, and be sent outside transactions or inside of them.

Edges lead from stored files to stored entities.  Every entity has an edge, its own identity, and a date.
From any moment to any later one files, entities and edges stay, and so do the dates of files and
entities.

**Proof sketch.** What is stored later is made from what was stored earlier by changes, each of which keeps the
graph together and loses nothing of it. -/
theorem history_linked_and_growing (events later : List Event) :
    let earlier := (history events).2.state.contents
    earlier.Linked ∧ earlier.GrowsInto (history (events ++ later)).2.state.contents := by
  intro earlier
  have hlinked : earlier.Linked := linked_history events
  obtain ⟨changes, hchanges⟩ := exists_changes events later
  rw [hchanges]
  exact ⟨hlinked, hlinked.growsInto_makeAll changes⟩

end CodeAtlas.Graph
