import CodeAtlas.Graph.Statement
import CodeAtlas.Graph.Store

/-!
# Traces of store calls

A traced store does what the store does and writes down every call.

## Main definitions

* `CodeAtlas.Graph.Call` — a call of a store.
* `CodeAtlas.Graph.Store.traced` — the store that writes down its calls.
-/

namespace CodeAtlas.Graph

/-- A call of a store. -/
inductive Call where
  /-- A statement outside any transaction. -/
  | direct (text : String) (params : Params)
  /-- A new transaction. -/
  | start
  /-- A statement inside a transaction. -/
  | within (text : String) (params : Params)
  /-- A commit. -/
  | commit
  /-- A rollback. -/
  | rollback

namespace Call

/-- What a statement is about: its `uid` parameter, else its `path` parameter. -/
def subject (params : Params) : Option String :=
  match params.get? "uid" with
  | some (.str s) => some s
  | _ =>
    match params.get? "path" with
    | some (.str s) => some s
    | _ => none

/-- The statement and what it is about, without trailing blanks. -/
def statementText (text : String) (params : Params) : String :=
  Text.trimEnd (Statement.label text ++ " " ++ (subject params).getD "")

/-- The text of a call. -/
def text : Call → String
  | .direct text params => "auto " ++ statementText text params
  | .start => "begin"
  | .within text params => statementText text params
  | .commit => "commit"
  | .rollback => "rollback"

end Call

/-- A state together with the calls written down, newest first. -/
structure Traced (σ : Type) where
  /-- The state of the store. -/
  state : σ
  /-- The calls, newest first. -/
  calls : List Call := []

variable {σ τ α : Type}

/-- An action of the store that is written down as `call`. -/
def traceAction (call : Call) (action : Action σ α) : Action (Traced σ) α := fun t =>
  let (result, state) := action t.state
  (result, ⟨state, call :: t.calls⟩)

/-- An action inside a transaction that is written down as `call`. -/
def traceWithin (call : Call) (action : Action (σ × τ) α) : Action (Traced σ × τ) α :=
  fun (t, tx) =>
    let (result, state, tx) := action (t.state, tx)
    (result, ⟨state, call :: t.calls⟩, tx)

/-- The store that writes down its calls. -/
def Store.traced (store : Store σ τ) : Store (Traced σ) τ where
  direct :=
    { execute := fun text params => traceAction (.direct text params) (store.direct.execute text params)
      run := fun text params => traceAction (.direct text params) (store.direct.run text params) }
  within :=
    { execute := fun text params => traceWithin (.within text params) (store.within.execute text params)
      run := fun text params => traceWithin (.within text params) (store.within.run text params) }
  start := traceAction .start store.start
  commit := fun tx => traceAction .commit (store.commit tx)
  rollback := fun tx => traceAction .rollback (store.rollback tx)
  abandon := fun tx t => { t with state := store.abandon tx t.state }

end CodeAtlas.Graph
