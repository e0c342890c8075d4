import CodeAtlas.Proofs.Graph.Containment
import CodeAtlas.Proofs.Graph.Read
import CodeAtlas.Proofs.Ingest.Committed
import CodeAtlas.Proofs.Text.Order

/-!
# Histories of the graph in memory

Whatever is done with the graph in memory, by calls of the repository and by whole runs, and whatever of
it fails, every entity stays contained by exactly the file that it names.

## Main definitions

* `CodeAtlas.Ingest.Use` — something that is done with the graph.
* `CodeAtlas.Ingest.afterUses` — the graph after a history, from the empty one.

## Main results

* `CodeAtlas.Ingest.Use.perform_induction` — what batches keep, one use keeps.
* `CodeAtlas.Ingest.afterUses_induction` — so does every history.
* `CodeAtlas.Ingest.contained_afterUses` — every history keeps containment.
* `CodeAtlas.Ingest.files_share_out_entities` — what the graph tells after a history.
-/

namespace CodeAtlas.Ingest

open CodeAtlas.Graph CodeAtlas.Embedding
open CodeAtlas.Graph.Memory (Contents)
open CodeAtlas.Number (Word.greatestSigned)

/-- Something that is done with the graph in memory. -/
inductive Use where
  /-- The constraints are set. -/
  | schema
  /-- Entities of a file are stored. -/
  | upsert (now path : String) (entities : List Embedded)
  /-- An entity is looked up. -/
  | find (uid : String)
  /-- The entities of a file are listed. -/
  | uids (path : String)
  /-- The graph is measured. -/
  | stats
  /-- A run over given files. -/
  | runFiles (embedder : Embedder) (clock : Nat → String) (batchSize : Nat) (inputs : List Input)
  /-- A run over the files below a directory. -/
  | run (embedder : Embedder) (clock : Nat → String) (tree : Files.Entry) (base : List String)
      (settings : Config.IngestSettings)
  /-- From now on every write to a path fails. -/
  | failWrites (path : String)

/-- The state that a call leaves behind, whatever its result. -/
def finalState {α σ : Type} (outcome : α × σ) : σ := outcome.2

/-- The graph after a use, whether it succeeds or not. -/
def Use.perform : Use → Memory → Memory
  | .schema, m => finalState (Repository.ensureSchema Memory.store m)
  | .upsert now path entities, m =>
    finalState (Repository.upsertBatch Memory.store now path entities m)
  | .find uid, m => finalState (Repository.findEntity Memory.store uid m)
  | .uids path, m => finalState (Repository.entityUids Memory.store path m)
  | .stats, m => finalState (Repository.stats Memory.store m)
  | .runFiles embedder clock batchSize inputs, m =>
    finalState (Ingest.runFiles Memory.store embedder clock batchSize inputs m)
  | .run embedder clock tree base settings, m =>
    finalState (Ingest.run Memory.store embedder clock tree base settings m)
  | .failWrites path, m => m.failWritesFor path

/-- The graph after a history of uses, from the empty graph. -/
def afterUses (uses : List Use) : Memory := uses.foldl (fun m use => use.perform m) {}

/-- **What batches keep, every use keeps**, whether it succeeds or not.

**Proof sketch.** By the kinds of uses.  A batch that is stored changes the graph by one batch, and a run by the
groups that it commits, each of which is a batch.  Nothing else changes it. -/
theorem Use.perform_induction {P : Contents → Prop}
    (hput : ∀ c now path entities, P c → P (c.putBatch now path entities)) (use : Use) {m : Memory}
    (h : P m.contents) : P (use.perform m).contents := by
  cases use with
  | schema =>
    rw [perform, finalState, Repository.graph_ensureSchema Memory.store_buffered]
    exact h
  | upsert now path entities =>
    rw [perform, finalState]
    rcases Repository.upsertBatch_cases Memory.store_buffered now path entities m with
      ⟨-, hgraph⟩ | ⟨-, hgraph⟩
    · rw [hgraph]
      exact hput _ now path entities h
    · rw [hgraph]
      exact h
  | find uid =>
    rw [perform, finalState, Repository.findEntity_store_snd]
    exact h
  | uids path =>
    rw [perform, finalState, Repository.entityUids_store]
    exact h
  | stats =>
    rw [perform, finalState]
    rcases Repository.stats_store m with hstats | ⟨-, f, hstats⟩
    · rw [hstats]
      exact h
    · rw [hstats]
      exact h
  | runFiles embedder clock batchSize inputs =>
    obtain ⟨groups, hgraph⟩ := graph_runFiles Memory.store_buffered embedder clock batchSize inputs m
    rw [perform, finalState, hgraph]
    exact storeGroups_induction hput clock 0 groups h
  | run embedder clock tree base settings =>
    obtain ⟨groups, hgraph⟩ := graph_run Memory.store_buffered embedder clock tree base settings m
    rw [perform, finalState, hgraph]
    exact storeGroups_induction hput clock 0 groups h
  | failWrites path => exact h

/-- **What holds of the empty graph and is kept by batches holds after every history.** -/
theorem afterUses_induction {P : Contents → Prop} (hempty : P {})
    (hput : ∀ c now path entities, P c → P (c.putBatch now path entities)) (uses : List Use) :
    P (afterUses uses).contents := by
  have hrun : ∀ m : Memory, P m.contents →
      P (uses.foldl (fun m use => use.perform m) m).contents := by
    induction uses with
    | nil => exact fun m hm => hm
    | cons use rest ih => exact fun m hm => ih (use.perform m) (use.perform_induction hput hm)
  exact hrun {} hempty

/-- **Every history keeps containment.** -/
theorem contained_afterUses (uses : List Use) : (afterUses uses).contents.Contained :=
  afterUses_induction Contents.Contained.empty
    (fun _ now path entities hc => hc.putBatch now path entities) uses

/-- **After every history each entity has exactly one owner**, a stored file whose path is the one that the
entity names.  So the graph tells of as many edges as entities and of no violation (unless there are more
files or entities than it can tell of), and the lists of entities of the files are strictly increasing in
the order of their bytes, have nothing in common, and together are all entities.

**Proof sketch.** The graph keeps its invariant through every history.  By it an entity has one owner, there are as
many edges as entities and no violation; and the lists of entities of the files are the targets of their edges. -/
theorem files_share_out_entities (uses : List Use) :
    let m := afterUses uses
    (∀ uid node, (uid, node) ∈ m.contents.entities →
      ∃ path ∈ m.contents.files.keys, m.contents.owners uid = [path] ∧
        Contents.recordedPath node = some path) ∧
    (Repository.stats Memory.store m =
        (.ok ⟨m.contents.files.length, m.contents.entities.length, m.contents.entities.length, 0⟩, m) ∨
      (Word.greatestSigned < m.contents.files.length ∨
          Word.greatestSigned < m.contents.entities.length) ∧
        ∃ f, Repository.stats Memory.store m = (.error f, m)) ∧
    ∃ uidsOf : String → List String,
      (∀ path, Repository.entityUids Memory.store path m = (.ok (uidsOf path), m)) ∧
      (∀ path, (uidsOf path).Pairwise fun a b => Text.Utf8.encode a < Text.Utf8.encode b) ∧
      (∀ p q, p ≠ q → List.Disjoint (uidsOf p) (uidsOf q)) ∧
      ∀ uid, uid ∈ m.contents.entities.keys ↔ ∃ path ∈ m.contents.files.keys, uid ∈ uidsOf path := by
  intro m
  have h : m.contents.Contained := contained_afterUses uses
  refine ⟨?_, ?_, m.contents.uidsOf, ?_, ?_, ?_, ?_⟩
  · intro uid node hmem
    obtain ⟨path, howners, hfile, hpath⟩ :=
      h.owners_eq ((h.entities_ordered.mem_iff_get? uid node).mp hmem)
    exact ⟨path, (Table.contains_iff_mem_keys path _).mp hfile, howners, hpath⟩
  · have hstats := Repository.stats_store m
    rw [h.length_contains, h.violations_eq] at hstats
    rcases hstats with hok | ⟨hgreat, herr⟩
    · exact Or.inl hok
    · refine Or.inr ⟨?_, herr⟩
      rcases hgreat with hfiles | hentities | hedges | hnone
      · exact Or.inl hfiles
      · exact Or.inr hentities
      · exact Or.inr hedges
      · rw [Word.greatestSigned] at hnone
        omega
  · exact fun path => Repository.entityUids_store path m
  · intro path
    refine (h.pairwise_uidsOf path).imp fun hlt => ?_
    exact (Text.Utf8.encode_lt_encode_iff _ _).mpr hlt
  · exact fun p q hpq => h.disjoint_uidsOf hpq
  · exact h.mem_keys_iff

end CodeAtlas.Ingest
