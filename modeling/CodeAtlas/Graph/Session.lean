import CodeAtlas.Graph.Repository

/-!
# Sessions

A session is a history of steps on one store: calls of the repository, statements of any text, and
transactions that are opened under a name and may overlap.

## Main definitions

* `CodeAtlas.Graph.Step` — one step.
* `CodeAtlas.Graph.Answer` — what a step answers.
* `CodeAtlas.Graph.Session` — the store and the transactions that are open.
* `CodeAtlas.Graph.Session.perform` — the effect and the answer of a step.
-/

namespace CodeAtlas.Graph

/-- What is wanted of the rows of a query. -/
inductive Mode where
  /-- Nothing. -/
  | run
  /-- All of them. -/
  | all
  /-- The first. -/
  | one
  deriving DecidableEq, Repr

/-- One step of a session. -/
inductive Step where
  /-- The constraints are set. -/
  | schema
  /-- The entities of a file are stored. -/
  | upsert (path : String) (entities : List Embedded)
  /-- An entity is looked up. -/
  | find (uid : String)
  /-- The entities of a file are listed. -/
  | uids (path : String)
  /-- The graph is measured. -/
  | stats
  /-- A transaction is opened under a name; one that is open under this name is let go. -/
  | start (name : String)
  /-- A transaction is committed. -/
  | commit (name : String)
  /-- A transaction is rolled back. -/
  | rollback (name : String)
  /-- A transaction is let go. -/
  | abandon (name : String)
  /-- A query is sent, inside a transaction or outside any. -/
  | query (mode : Mode) (q : Query) (within : Option String)

/-- What a step answers. -/
inductive Answer where
  /-- The step succeeded and has nothing to tell. -/
  | done
  /-- All rows. -/
  | rows (rows : List Row)
  /-- The first row. -/
  | row (row : Option Row)
  /-- The entity that was looked up. -/
  | record (record : Option Entity.Record)
  /-- Identities of entities. -/
  | uids (uids : List String)
  /-- The size of the graph. -/
  | stats (stats : Stats)
  /-- No transaction is open under the name. -/
  | notOpen
  /-- The step failed. -/
  | failed (failure : Failure)

/-- The answer of an action, by its result. -/
def Answer.ofResult {α : Type} (answer : α → Answer) : Except Failure α → Answer
  | .ok a => answer a
  | .error f => .failed f

/-- A store and the transactions that are open on it. -/
structure Session (σ τ : Type) where
  /-- The state of the store. -/
  state : σ
  /-- The open transactions by name. -/
  opened : Table τ := []

/-- A query sent, with what is wanted of its rows. -/
def Query.send {σ : Type} (mode : Mode) (e : Executor σ) (q : Query) (s : σ) : Answer × σ :=
  match mode with
  | .run =>
    let (result, s) := q.run e s
    (.ofResult (fun _ => .done) result, s)
  | .all =>
    let (result, s) := q.fetchAll e s
    (.ofResult .rows result, s)
  | .one =>
    let (result, s) := q.fetchOne e s
    (.ofResult .row result, s)

namespace Session

variable {σ τ : Type}

/-- An action on the state of the store. -/
def act {α : Type} (action : Action σ α) (answer : α → Answer) (s : Session σ τ) :
    Answer × Session σ τ :=
  let (result, state) := action s.state
  (.ofResult answer result, { s with state })

/-- The end of a transaction, after which it is no longer open. -/
def finish (name : String) (action : τ → Action σ Unit) (s : Session σ τ) :
    Answer × Session σ τ :=
  match s.opened.get? name with
  | none => (.notOpen, s)
  | some t => act (action t) (fun _ => .done) { s with opened := s.opened.erase name }

/-- The effect and the answer of a step at the time `now`. -/
def perform (store : Store σ τ) (now : String) (step : Step) (s : Session σ τ) :
    Answer × Session σ τ :=
  match step with
  | .schema => s.act (Repository.ensureSchema store) fun _ => .done
  | .upsert path entities => s.act (Repository.upsertBatch store now path entities) fun _ => .done
  | .find uid => s.act (Repository.findEntity store uid) .record
  | .uids path => s.act (Repository.entityUids store path) .uids
  | .stats => s.act (Repository.stats store) .stats
  | .start name =>
    match store.start s.state with
    | (.error f, state) => (.failed f, { s with state })
    | (.ok t, state) =>
      let state :=
        match s.opened.get? name with
        | some old => store.abandon old state
        | none => state
      (.done, ⟨state, s.opened.insert name t⟩)
  | .commit name => s.finish name store.commit
  | .rollback name => s.finish name store.rollback
  | .abandon name => s.finish name fun t state => (.ok (), store.abandon t state)
  | .query mode q none =>
    let (answer, state) := q.send mode store.direct s.state
    (answer, { s with state })
  | .query mode q (some name) =>
    match s.opened.get? name with
    | none => (.notOpen, s)
    | some t =>
      let (answer, state, t) := q.send mode store.within (s.state, t)
      (answer, ⟨state, s.opened.insert name t⟩)

end Session

end CodeAtlas.Graph
