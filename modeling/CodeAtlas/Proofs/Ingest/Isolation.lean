import CodeAtlas.Proofs.Graph.Versions
import CodeAtlas.Proofs.Ingest.History
import CodeAtlas.Proofs.Ingest.Schedule

/-!
# Files do not interfere

What a run stores for a path is the file, the list of its entities, and the record of each of them.  Other
files of the run move the limits of the batches, and their entities share batches with those of the path, but
none of this shows.  A run over the files with this path alone stores the same for it.

The identity of an entity tells its path, so that no version of an entity of another file is ever a version
of one of these.

## Main definitions

* `CodeAtlas.Graph.Memory.Contents.Agree` — two graphs hold the same about a path.

## Main results

* `CodeAtlas.Graph.Memory.Contents.agree_putItems` — items of other files do not matter for a path.
* `CodeAtlas.Graph.Memory.Contents.Agree.uidsOf_eq` — graphs that agree list the same entities of the path.
* `CodeAtlas.Ingest.runFiles_isolates_paths` — what a run stores for a path is what a run over its files alone
  stores.
-/

namespace CodeAtlas

namespace Graph.Memory.Contents

open CodeAtlas.Ingest (Item)

/-- **Two graphs hold the same about a path**: its file, whatever is identified as an entity of it, and its
edges. -/
structure Agree (path : String) (c d : Contents) : Prop where
  /-- The file. -/
  file : c.files.get? path = d.files.get? path
  /-- What is stored under the identity of an entity of the path. -/
  entity : ∀ e : Entity, c.entities.get? (e.uid path) = d.entities.get? (e.uid path)
  /-- The edges. -/
  edge : ∀ uid, (path, uid) ∈ c.contains ↔ (path, uid) ∈ d.contains

/-! ## Items as deposits -/

/-- An item stored by itself. -/
def depositOf (now : String) (i : Item) : Deposit := ⟨now, i.path, [i.content]⟩

/-- Items are stored as deposits of one entity each. -/
lemma foldl_putItem_eq_putDeposits (now : String) (items : List Item) (c : Contents) :
    items.foldl (putItem now) c = c.putDeposits (items.map (depositOf now)) := by
  unfold putDeposits
  rw [List.foldl_map]
  rfl

/-- The version that an item brings. -/
def versionOf (now : String) (i : Item) : Version := ⟨now, i.path, i.content⟩

/-- The versions that items bring. -/
lemma versions_map_depositOf (now : String) (items : List Item) :
    versions (items.map (depositOf now)) = items.map (versionOf now) := by
  induction items with
  | nil => rfl
  | cons i rest ih =>
    rw [List.map_cons, versions_cons, ih, List.map_cons]
    rfl

/-- The versions of an entity of a path come from the items with this path. -/
lemma filter_versionOf (now path : String) (e : Entity) (items : List Item) :
    ((items.filter fun i => i.path = path).map (versionOf now)).filter (fun v => v.uid = e.uid path) =
      (items.map (versionOf now)).filter fun v => v.uid = e.uid path := by
  rw [List.filter_map, List.filter_map, List.filter_filter]
  refine congrArg _ (List.filter_congr fun i _ => ?_)
  by_cases huid : (versionOf now i).uid = e.uid path
  · have hpath : i.path = path := (Entity.uid_inj huid).1
    simp [huid, hpath]
  · simp [huid]

/-! ## Items of other files -/

/-- The first deposit for a path is the first among those for this path. -/
lemma find?_filter_depositOf (now path : String) (items : List Item) :
    ((items.filter fun i => i.path = path).map (depositOf now)).find? (fun d => d.path = path) =
      (items.map (depositOf now)).find? fun d => d.path = path := by
  rw [List.find?_map, List.find?_map, List.find?_filter]
  congr 2
  funext i
  by_cases hpath : i.path = path <;> simp [depositOf, hpath]

/-- **Items of other files do not matter for a path.**

**Proof sketch.** Both sides are made by deposits of one item each, and what these leave is known from their
versions.  For the path, the file and the edges come from its own items only; and an identity of an entity of the
path belongs to no other path, so its versions are the same. -/
theorem agree_putItems (now path : String) (items : List Item) (c : Contents) :
    Agree path (items.foldl (putItem now) c)
      ((items.filter fun i => i.path = path).foldl (putItem now) c) := by
  rw [foldl_putItem_eq_putDeposits, foldl_putItem_eq_putDeposits]
  have hall := gains_putDeposits c (items.map (depositOf now))
  have halone := gains_putDeposits c ((items.filter fun i => i.path = path).map (depositOf now))
  rw [versions_map_depositOf] at hall halone
  refine ⟨?_, fun e => ?_, fun uid => ?_⟩
  · rw [get?_files_putDeposits, get?_files_putDeposits, find?_filter_depositOf]
  · rw [hall.entities, halone.entities, filter_versionOf]
  · rw [hall.edges, halone.edges]
    refine or_congr_right ⟨?_, ?_⟩
    · rintro ⟨v, hv, hedge⟩
      obtain ⟨i, hi, rfl⟩ := List.mem_map.mp hv
      have hpath : i.path = path := (Prod.mk.inj hedge).1.symm
      exact ⟨_, List.mem_map_of_mem (List.mem_filter.mpr ⟨hi, decide_eq_true hpath⟩), hedge⟩
    · rintro ⟨v, hv, hedge⟩
      obtain ⟨i, hi, rfl⟩ := List.mem_map.mp hv
      exact ⟨_, List.mem_map_of_mem (List.mem_of_mem_filter hi), hedge⟩

namespace Agree

variable {path : String} {c d : Contents}

/-- Graphs that agree list the same entities of the path. -/
theorem uidsOf_eq (h : Agree path c d) (hc : c.Contained) (hd : d.Contained) :
    c.uidsOf path = d.uidsOf path := by
  refine List.Pairwise.eq_of_mem_iff (hc.pairwise_uidsOf path) (hd.pairwise_uidsOf path) fun uid => ?_
  rw [Contained.mem_uidsOf, Contained.mem_uidsOf, h.edge]

/-- Graphs that agree hold the same nodes for the entities of the path. -/
theorem get?_eq_of_mem_uidsOf (h : Agree path c d) (hc : c.Contained) {uid : String}
    (huid : uid ∈ c.uidsOf path) : c.entities.get? uid = d.entities.get? uid := by
  obtain ⟨e, rfl⟩ := hc.identity ((Contained.mem_uidsOf c path uid).mp huid)
  exact h.entity e

end Agree

end Graph.Memory.Contents

/-- Looking up an entity tells of nothing but what is stored under its identity. -/
lemma Graph.Repository.findEntity_congr {uid : String} {m m' : Graph.Memory}
    (h : m.contents.entities.get? uid = m'.contents.entities.get? uid) :
    (findEntity Memory.store uid m).1 = (findEntity Memory.store uid m').1 := by
  rw [findEntity, findEntity, fetchOne_findEntity, fetchOne_findEntity, h]
  cases m'.contents.entities.get? uid <;> dsimp only [Option.map]

namespace Ingest

open CodeAtlas.Graph CodeAtlas.Embedding
open CodeAtlas.Graph.Memory (Contents)

/-- The graph that a run leaves on the empty one is contained. -/
lemma contained_runFiles (embedder : Embedder) (clock : Nat → String) (batchSize : Nat)
    (inputs : List Input) :
    (runFiles Memory.store embedder clock batchSize inputs {}).2.contents.Contained := by
  have h := contained_afterUses [.runFiles embedder clock batchSize inputs]
  rw [afterUses, List.foldl_cons, List.foldl_nil, Use.perform, finalState] at h
  exact h

/-- **What a run stores for a path is what a run over its files alone stores.**  The embedder is pure, no path
fails, and the clock stands still.  Then a run over some files and a run over those of them with a given path
both succeed on the empty graph, with any batch sizes.  They leave the same file, list the same entities of it,
and find the same node and record for each of these entities.

**Proof sketch.** Both runs succeed and store the items of their entities, one after the other.  The items of the
second run are those of the first with the given path, so the two graphs agree on this path: on its file, on its
list of entities, and on what is found for each of them. -/
theorem runFiles_isolates_paths {embedder : Embedder} {vector : String → Embedding.Vector}
    (h : embedder.Pure vector) (now : String) (batchSize₁ batchSize₂ : Nat) (inputs : List Input)
    (path : String) :
    let all := runFiles Memory.store embedder (fun _ => now) batchSize₁ inputs {}
    let alone := runFiles Memory.store embedder (fun _ => now) batchSize₂
      (inputs.filter fun i => i.path = path) {}
    all.1.result = .ok () ∧ alone.1.result = .ok () ∧
    all.2.contents.files.get? path = alone.2.contents.files.get? path ∧
    ∃ uids, Repository.entityUids Memory.store path all.2 = (.ok uids, all.2) ∧
      Repository.entityUids Memory.store path alone.2 = (.ok uids, alone.2) ∧
      ∀ uid ∈ uids, all.2.contents.entities.get? uid = alone.2.contents.entities.get? uid ∧
        (Repository.findEntity Memory.store uid all.2).1 =
          (Repository.findEntity Memory.store uid alone.2).1 := by
  have hall := contained_runFiles embedder (fun _ => now) batchSize₁ inputs
  have halone :=
    contained_runFiles embedder (fun _ => now) batchSize₂ (inputs.filter fun i => i.path = path)
  obtain ⟨hok₁, -, hstate₁⟩ := runFiles_store (m := {}) h rfl now batchSize₁ inputs
  obtain ⟨hok₂, -, hstate₂⟩ :=
    runFiles_store (m := {}) h rfl now batchSize₂ (inputs.filter fun i => i.path = path)
  -- the items of the second run are the items of the first that have the path
  have hitems : (entitiesOf (inputs.filter fun i => i.path = path)).map (itemOf vector) =
      ((entitiesOf inputs).map (itemOf vector)).filter fun i => i.path = path := by
    rw [← filter_entitiesOf, List.filter_map]
    rfl
  have hput := Contents.agree_putItems now path ((entitiesOf inputs).map (itemOf vector)) {}
  rw [← hitems] at hput
  dsimp only
  generalize runFiles Memory.store embedder (fun _ => now) batchSize₁ inputs {} = all
    at hall hok₁ hstate₁ ⊢
  generalize runFiles Memory.store embedder (fun _ => now) batchSize₂
    (inputs.filter fun i => i.path = path) {} = alone at halone hok₂ hstate₂ ⊢
  have hagree : Contents.Agree path all.2.contents alone.2.contents := by
    rw [hstate₁, hstate₂]
    exact hput
  refine ⟨hok₁, hok₂, hagree.file, all.2.contents.uidsOf path,
    Repository.entityUids_store path all.2, ?_, fun uid huid => ?_⟩
  · rw [hagree.uidsOf_eq hall halone]
    exact Repository.entityUids_store path alone.2
  · have hnode := hagree.get?_eq_of_mem_uidsOf hall huid
    exact ⟨hnode, Repository.findEntity_congr hnode⟩

/-- A file that comes twice, around another one whose path looks like an identity of an entity of the first. -/
theorem runFiles_isolates_paths_three_files :
    (Embedder.offline 4).Pure (Offline.vector 4) ∧
    let inputs :=
      [functionFile "a" "/old/a", functionFile "a:1:1:Function" "/b", functionFile "a" "/a"]
    let all := runFiles Memory.store (Embedder.offline 4) (fun _ => "now") 2 inputs {}
    let alone := runFiles Memory.store (Embedder.offline 4) (fun _ => "now") 3
      (inputs.filter fun i => i.path = "a") {}
    all.1.result = .ok () ∧ alone.1.result = .ok () ∧
    all.2.contents.files.get? "a" = alone.2.contents.files.get? "a" ∧
    ∃ uids, Repository.entityUids Memory.store "a" all.2 = (.ok uids, all.2) ∧
      Repository.entityUids Memory.store "a" alone.2 = (.ok uids, alone.2) ∧
      ∀ uid ∈ uids, all.2.contents.entities.get? uid = alone.2.contents.entities.get? uid ∧
        (Repository.findEntity Memory.store uid all.2).1 =
          (Repository.findEntity Memory.store uid alone.2).1 :=
  ⟨Embedder.offline_pure 4, runFiles_isolates_paths (Embedder.offline_pure 4) "now" 2 3 _ "a"⟩

end Ingest

end CodeAtlas
