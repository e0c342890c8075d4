import CodeAtlas.Proofs.Graph.Batch
import CodeAtlas.Proofs.Graph.Execute

/-!
# Stores that buffer the writes of a transaction

A store is *buffered* when the writes of a transaction wait for its commit, which applies all of them or
none.  Any call may fail, and a call that fails changes nothing.  The graph in memory is such a store, and
it stays one when its calls are made to fail at will.

Everything that the repository does with a buffered store either stores a whole batch or nothing.

## Main definitions

* `CodeAtlas.Graph.Store.Buffered` — what a buffered store may do.
* `CodeAtlas.Graph.Store.unreliable` — the store whose calls fail according to a schedule.

## Main results

* `CodeAtlas.Graph.Memory.store_buffered` — the graph in memory is buffered.
* `CodeAtlas.Graph.Store.Buffered.unreliable` — failures at will keep a store buffered.
* `CodeAtlas.Graph.Repository.upsertBatch_cases` — a batch is stored as a whole or not at all.
* `CodeAtlas.Graph.Repository.upsertBatch_store` — the graph in memory fails for failing paths only.
-/

namespace CodeAtlas.Graph

open Memory (Contents Pending)

/-! ## The specification -/

/-- **What a buffered store may do.**  The graph of a state is given by `graph`, and the writes that wait
in a transaction by `pending`. -/
structure Store.Buffered {σ τ : Type} (store : Store σ τ) (graph : σ → Contents)
    (pending : τ → Pending) : Prop where
  /-- Constraints do not change the graph. -/
  schema : ∀ statement ∈ Statement.schema, ∀ params s,
    graph (store.direct.run statement.text params s).2 = graph s
  /-- A new transaction does not change the graph. -/
  start : ∀ s, graph (store.start s).2 = graph s
  /-- No write waits in a new transaction. -/
  pending_start : ∀ s t, (store.start s).1 = .ok t → pending t = []
  /-- A statement in a transaction does not change the graph. -/
  within : ∀ text params s t, graph (store.within.run text params (s, t)).2.1 = graph s
  /-- A write that succeeds in a transaction waits behind those before it. -/
  pending_within : ∀ statement : Statement, statement.isWrite = true → ∀ params s t,
    (store.within.run statement.text params (s, t)).1 = .ok () →
      pending (store.within.run statement.text params (s, t)).2.2 =
        pending t ++ [(statement, params)]
  /-- A commit that succeeds has applied all that waited. -/
  commit_ok : ∀ t s, (store.commit t s).1 = .ok () →
    (graph s).applyAll (pending t) = .ok (graph (store.commit t s).2)
  /-- A commit that fails does not change the graph. -/
  commit_error : ∀ t s f, (store.commit t s).1 = .error f → graph (store.commit t s).2 = graph s
  /-- A rollback does not change the graph. -/
  rollback : ∀ t s, graph (store.rollback t s).2 = graph s

/-! ## The graph in memory -/

namespace Memory

/-- A write in a transaction is refused for a failing path, and waits otherwise. -/
theorem within_run_of_isWrite {statement : Statement} (h : statement.isWrite = true)
    (params : Params) (m : Memory) (p : Pending) :
    store.within.run statement.text params (m, p) =
      match m.checkPath statement.text params with
      | .error f => (.error f, m, p)
      | .ok () => (.ok (), m, p ++ [(statement, params)]) := by
  rw [store_within_run, discard, executeIn, Statement.recognize_text]
  dsimp only
  rw [if_pos h]
  cases m.checkPath statement.text params <;> rfl

/-- No statement in a transaction changes the graph. -/
theorem executeIn_fst (text : String) (params : Params) (m : Memory) (p : Pending) :
    (executeIn text params (m, p)).2.1 = m := by
  rcases executeIn_cases text params m p with ⟨f, h⟩ | ⟨rows, h⟩
  · rw [h]
  · rw [h]

/-- A constraint changes nothing. -/
theorem direct_run_schema {statement : Statement} (h : statement ∈ Statement.schema)
    (params : Params) (m : Memory) : (store.direct.run statement.text params m).2 = m := by
  rw [store_direct_run, discard_snd, execute, Statement.recognize_text]
  dsimp only
  rw [Statement.schema, List.mem_cons, List.mem_singleton] at h
  rcases h with rfl | rfl
  all_goals
    simp only [Statement.isWrite, if_true, Contents.apply]
    cases m.checkPath _ params <;> rfl

/-- **The graph in memory is buffered.** -/
theorem store_buffered : store.Buffered Memory.contents id where
  schema _ h params m := congrArg Memory.contents (direct_run_schema h params m)
  start _ := rfl
  pending_start _ _ h := (Except.ok.inj h).symm
  within text params m p := by
    rw [store_within_run, discard_snd, executeIn_fst]
  pending_within statement h params m p hok := by
    rw [within_run_of_isWrite h] at hok ⊢
    cases hcheck : m.checkPath statement.text params with
    | error f => rw [hcheck] at hok; cases hok
    | ok u => rfl
  commit_ok p m hok := by
    rw [store_commit, commit] at hok ⊢
    cases happly : m.contents.applyAll p with
    | error f => rw [happly] at hok; cases hok
    | ok c => simp only [id, happly]
  commit_error p m f herr := by
    rw [store_commit, commit] at herr ⊢
    cases happly : m.contents.applyAll p with
    | error f => rfl
    | ok c => rw [happly] at herr; cases herr
  rollback _ _ := rfl

end Memory

/-! ## Failures at will -/

/-- A state together with the number of calls that were made. -/
structure Unreliable (σ : Type) where
  /-- The state of the store. -/
  state : σ
  /-- The number of calls so far. -/
  calls : Nat := 0

section Unreliable

variable {σ τ α : Type} (fails : Nat → Option Failure)

/-- An action that is one call: it fails, without effect, if the schedule says so. -/
def unreliably (action : Action σ α) : Action (Unreliable σ) α := fun u =>
  match fails u.calls with
  | some f => (.error f, ⟨u.state, u.calls + 1⟩)
  | none => ((action u.state).1, ⟨(action u.state).2, u.calls + 1⟩)

/-- The same inside a transaction. -/
def unreliablyWithin (action : Action (σ × τ) α) : Action (Unreliable σ × τ) α := fun (u, t) =>
  match fails u.calls with
  | some f => (.error f, ⟨u.state, u.calls + 1⟩, t)
  | none =>
    ((action (u.state, t)).1, ⟨(action (u.state, t)).2.1, u.calls + 1⟩, (action (u.state, t)).2.2)

/-- The store whose calls fail according to a schedule, which may have any call fail with any failure. -/
def Store.unreliable (store : Store σ τ) : Store (Unreliable σ) τ where
  direct :=
    { execute := fun text params => unreliably fails (store.direct.execute text params)
      run := fun text params => unreliably fails (store.direct.run text params) }
  within :=
    { execute := fun text params => unreliablyWithin fails (store.within.execute text params)
      run := fun text params => unreliablyWithin fails (store.within.run text params) }
  start := unreliably fails store.start
  commit := fun t => unreliably fails (store.commit t)
  rollback := fun t => unreliably fails (store.rollback t)
  abandon := fun t u => { u with state := store.abandon t u.state }

/-- A call either fails without effect or is the call of the store. -/
lemma unreliably_cases (action : Action σ α) (u : Unreliable σ) :
    (∃ f, (unreliably fails action u).1 = .error f ∧ (unreliably fails action u).2.state = u.state) ∨
      ((unreliably fails action u).1 = (action u.state).1 ∧
        (unreliably fails action u).2.state = (action u.state).2) := by
  rw [unreliably]
  cases fails u.calls with
  | some f => exact Or.inl ⟨f, rfl, rfl⟩
  | none => exact Or.inr ⟨rfl, rfl⟩

/-- **Failures at will keep a store buffered.**

**Proof sketch.** A call that is made to fail changes neither the graph nor what waits, and no law asks
anything else of a call that fails; any other call is that of the store. -/
theorem Store.Buffered.unreliable {store : Store σ τ} {graph : σ → Contents} {pending : τ → Pending}
    (h : store.Buffered graph pending) :
    (store.unreliable fails).Buffered (fun u => graph u.state) pending where
  schema statement hs params u := by
    rcases unreliably_cases fails (store.direct.run statement.text params) u with ⟨f, -, hu⟩ | ⟨-, hu⟩
    · exact congrArg graph hu
    · exact (congrArg graph hu).trans (h.schema statement hs params u.state)
  start u := by
    rcases unreliably_cases fails store.start u with ⟨f, -, hu⟩ | ⟨-, hu⟩
    · exact congrArg graph hu
    · exact (congrArg graph hu).trans (h.start u.state)
  pending_start u t ht := by
    rcases unreliably_cases fails store.start u with ⟨f, hf, -⟩ | ⟨hr, -⟩
    · cases hf.symm.trans ht
    · exact h.pending_start u.state t (hr.symm.trans ht)
  within text params u t := by
    rw [Store.unreliable]
    dsimp only [unreliablyWithin]
    cases fails u.calls with
    | some f => rfl
    | none => exact h.within text params u.state t
  pending_within statement hw params u t hok := by
    rw [Store.unreliable] at hok ⊢
    dsimp only [unreliablyWithin] at hok ⊢
    cases hf : fails u.calls with
    | some f => rw [hf] at hok; cases hok
    | none =>
      rw [hf] at hok
      exact h.pending_within statement hw params u.state t hok
  commit_ok t u hok := by
    rcases unreliably_cases fails (store.commit t) u with ⟨f, hf, -⟩ | ⟨hr, hu⟩
    · cases hf.symm.trans hok
    · exact (h.commit_ok t u.state (hr.symm.trans hok)).trans
        (congrArg (fun s => Except.ok (graph s)) hu.symm)
  commit_error t u f herr := by
    rcases unreliably_cases fails (store.commit t) u with ⟨g, -, hu⟩ | ⟨hr, hu⟩
    · exact congrArg graph hu
    · exact (congrArg graph hu).trans (h.commit_error t u.state f (hr.symm.trans herr))
  rollback t u := by
    rcases unreliably_cases fails (store.rollback t) u with ⟨f, -, hu⟩ | ⟨-, hu⟩
    · exact congrArg graph hu
    · exact (congrArg graph hu).trans (h.rollback t u.state)

end Unreliable

/-! ## The repository on a buffered store -/

namespace Repository

variable {σ τ : Type} {store : Store σ τ} {graph : σ → Contents} {pending : τ → Pending}

/-- The first query decides whether the others are sent. -/
lemma runAll_cons {ρ : Type} (e : Executor ρ) (q : Query) (rest : List Query) (s : ρ) :
    runAll e (q :: rest) s =
      match q.run e s with
      | (.error f, s) => (.error f, s)
      | (.ok (), s) => runAll e rest s := rfl

/-- Constraints do not change the graph, whether they can be set or not.

**Proof sketch.** Induction on the statements of the schema: each leaves the graph as it is, whether it succeeds and
the next one follows, or fails and none does. -/
theorem graph_ensureSchema (h : store.Buffered graph pending) (s : σ) :
    graph (ensureSchema store s).2 = graph s := by
  have hrun : ∀ statements : List Statement, (∀ x ∈ statements, x ∈ Statement.schema) → ∀ s,
      graph (runAll store.direct (statements.map query) s).2 = graph s := by
    intro statements
    induction statements with
    | nil => intro _ s; rfl
    | cons x rest ih =>
      intro hx s
      have hfirst : graph ((query x).run store.direct s).2 = graph s :=
        h.schema x (hx x List.mem_cons_self) [] s
      rw [List.map_cons, runAll_cons]
      generalize (query x).run store.direct s = r at hfirst ⊢
      rcases r with ⟨f | _, s'⟩
      · exact hfirst
      · exact (ih (fun y hy => hx y (List.mem_cons_of_mem _ hy)) s').trans hfirst
  exact hrun Statement.schema (fun _ hx => hx) s

/-- Writes sent in a transaction do not change the graph, and wait in order if all succeed.

**Proof sketch.** Induction on the writes.  One write leaves the graph as it is, and is appended to those that wait
if it succeeds; after a failure no other is sent, and nothing is said about what waits. -/
theorem runAll_within (h : store.Buffered graph pending) (writes : Pending)
    (hw : ∀ w ∈ writes, w.1.isWrite = true) (s : σ) (t : τ) :
    graph (runAll store.within (writes.map Query.ofWrite) (s, t)).2.1 = graph s ∧
      ((runAll store.within (writes.map Query.ofWrite) (s, t)).1 = .ok () →
        pending (runAll store.within (writes.map Query.ofWrite) (s, t)).2.2 =
          pending t ++ writes) := by
  induction writes generalizing s t with
  | nil => exact ⟨rfl, fun _ => (List.append_nil _).symm⟩
  | cons w rest ih =>
    obtain ⟨statement, params⟩ := w
    have hgraph := h.within statement.text params s t
    have hpending := h.pending_within statement (hw _ List.mem_cons_self) params s t
    rw [List.map_cons, runAll_cons, Query.run_ofWrite]
    dsimp only
    generalize store.within.run statement.text params (s, t) = r at hgraph hpending ⊢
    rcases r with ⟨f | _, s', t'⟩
    · exact ⟨hgraph, fun hok => by cases hok⟩
    · obtain ⟨ihgraph, ihpending⟩ := ih (fun w hmem => hw w (List.mem_cons_of_mem _ hmem)) s' t'
      refine ⟨ihgraph.trans hgraph, fun hok => ?_⟩
      rw [ihpending hok, hpending rfl, List.append_assoc, List.singleton_append]

/-- **A batch is stored as a whole or not at all**, and a failure names the file.

**Proof sketch.** Up to the commit the graph does not change, and the transaction holds exactly the
statements of the batch (`runAll_within`).  The commit applies them all, which stores the batch
(`applyAll_fileWrites`), or none. -/
theorem upsertBatch_cases (h : store.Buffered graph pending) (now path : String)
    (entities : List Embedded) (s : σ) :
    ((upsertBatch store now path entities s).1 = .ok () ∧
        graph (upsertBatch store now path entities s).2 = (graph s).putBatch now path entities) ∨
      ((∃ f, (upsertBatch store now path entities s).1 = .error (.write path f)) ∧
        graph (upsertBatch store now path entities s).2 = graph s) := by
  have hstart := h.start s
  have hnew := h.pending_start s
  rw [upsertBatch]
  generalize store.start s = r₁ at hstart hnew ⊢
  rcases r₁ with ⟨f | t, s₁⟩
  · exact Or.inr ⟨⟨f, rfl⟩, hstart⟩
  · obtain ⟨hgraph, hpending⟩ := runAll_within h (fileWrites path now entities)
      (fun w => isWrite_of_mem_fileWrites) s₁ t
    rw [← fileQueries_eq] at hgraph hpending
    dsimp only at hstart ⊢
    generalize runAll store.within (fileQueries path now entities) (s₁, t) = r₂ at hgraph hpending ⊢
    rcases r₂ with ⟨f | _, s₂, t₂⟩
    · -- a statement failed: whatever the rollback answers, it changes nothing
      exact Or.inr ⟨⟨f, rfl⟩, (h.rollback t₂ s₂).trans (hgraph.trans hstart)⟩
    · have hok := h.commit_ok t₂ s₂
      have herr := h.commit_error t₂ s₂
      dsimp only at hgraph hpending ⊢
      generalize store.commit t₂ s₂ = r₃ at hok herr ⊢
      rcases r₃ with ⟨f | _, s₃⟩
      · exact Or.inr ⟨⟨f, rfl⟩, (herr f rfl).trans (hgraph.trans hstart)⟩
      · have happly := hok rfl
        rw [hpending rfl, hnew t rfl, List.nil_append, hgraph, hstart, applyAll_fileWrites] at happly
        exact Or.inl ⟨rfl, (Except.ok.inj happly).symm⟩

/-! ## The repository on the graph in memory -/

/-- The constraints can always be set. -/
theorem ensureSchema_store (m : Memory) : ensureSchema Memory.store m = (.ok (), m) := by
  have hrun : ∀ statement ∈ Statement.schema,
      (query statement).run Memory.store.direct m = (.ok (), m) := by
    intro statement hmem
    have hquery : (query statement).run Memory.store.direct = Memory.store.direct.run statement.text [] :=
      rfl
    rw [hquery, Memory.store_direct_run, Memory.discard, Memory.execute, Statement.recognize_text]
    rw [Statement.schema, List.mem_cons, List.mem_singleton] at hmem
    rcases hmem with rfl | rfl <;> rfl
  rw [ensureSchema, Statement.schema, List.map_cons, runAll_cons, hrun _ List.mem_cons_self]
  dsimp only
  rw [List.map_singleton, runAll_cons, hrun _ (List.mem_cons_of_mem _ List.mem_cons_self)]
  rfl

/-- A write to a path that does not fail is accepted. -/
lemma run_store_within {m : Memory} {path : String} (hpath : m.failing.contains path = false)
    {w : Statement × Params} (hwrite : w.1.isWrite = true) (hget : w.2.get? "path" = some (.str path))
    (p : Pending) : (Query.ofWrite w).run Memory.store.within (m, p) = (.ok (), m, p ++ [w]) := by
  have hcheck : m.checkPath w.1.text w.2 = .ok () := by
    rw [Memory.checkPath, hget]
    dsimp only
    rw [if_neg (by rw [hpath]; decide)]
  rw [Query.run_ofWrite, Memory.within_run_of_isWrite hwrite, hcheck]

/-- Writes to a path that does not fail are all accepted. -/
lemma runAll_store_within {m : Memory} {path : String} (hpath : m.failing.contains path = false)
    (writes : Pending)
    (hw : ∀ w ∈ writes, w.1.isWrite = true ∧ w.2.get? "path" = some (.str path)) (p : Pending) :
    runAll Memory.store.within (writes.map Query.ofWrite) (m, p) = (.ok (), m, p ++ writes) := by
  induction writes generalizing p with
  | nil => rw [List.append_nil]; rfl
  | cons w rest ih =>
    obtain ⟨hwrite, hget⟩ := hw w List.mem_cons_self
    rw [List.map_cons, runAll_cons, run_store_within hpath hwrite hget]
    dsimp only
    rw [ih (fun w hmem => hw w (List.mem_cons_of_mem _ hmem)), List.append_assoc,
      List.singleton_append]

/-- **A batch for a path that does not fail is stored.** -/
theorem upsertBatch_store {m : Memory} {path : String} (hpath : m.failing.contains path = false)
    (now : String) (entities : List Embedded) :
    upsertBatch Memory.store now path entities m =
      (.ok (), { m with contents := m.contents.putBatch now path entities }) := by
  have hrun := runAll_store_within hpath (fileWrites path now entities)
    (fun w hw => ⟨isWrite_of_mem_fileWrites hw, path_of_mem_fileWrites hw⟩) []
  rw [← fileQueries_eq] at hrun
  rw [upsertBatch, show Memory.store.start m = (.ok [], m) from rfl]
  dsimp only
  rw [hrun]
  dsimp only
  rw [Memory.store_commit, List.nil_append, Memory.commit, applyAll_fileWrites]

end Repository

end CodeAtlas.Graph
