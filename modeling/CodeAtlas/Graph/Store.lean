import CodeAtlas.Graph.Row

/-!
# Graph stores

A store takes statements, alone or inside transactions.  What a store does is described by functions on
the state of its world, so that any backend, and any backend that fails at will, is a value of the same
type.

## Main definitions

* `CodeAtlas.Graph.Action` — a step that changes a state and may fail.
* `CodeAtlas.Graph.Executor` — what takes statements.
* `CodeAtlas.Graph.Store` — a store with transactions.
-/

namespace CodeAtlas.Graph

/-- A step that changes the state and gives a result or fails. -/
abbrev Action (σ α : Type) := ExceptT Failure (StateM σ) α

/-- What takes statements, with state `σ`. -/
structure Executor (σ : Type) where
  /-- A statement whose rows are wanted. -/
  execute : String → Params → Action σ Rows
  /-- A statement whose rows are not wanted. -/
  run : String → Params → Action σ Unit

/-- A store with state `σ` and transactions `τ`. -/
structure Store (σ τ : Type) where
  /-- Statements outside any transaction. -/
  direct : Executor σ
  /-- Statements inside a transaction. -/
  within : Executor (σ × τ)
  /-- A new transaction. -/
  start : Action σ τ
  /-- The end of a transaction that keeps its writes. -/
  commit : τ → Action σ Unit
  /-- The end of a transaction that discards its writes. -/
  rollback : τ → Action σ Unit
  /-- A transaction that is simply let go. -/
  abandon : τ → σ → σ

/-- An executor whose state is a part of a larger one. -/
def Executor.lift {σ ρ : Type} (get : ρ → σ) (set : ρ → σ → ρ) (e : Executor σ) : Executor ρ where
  execute := fun text params s =>
    let (result, inner) := e.execute text params (get s)
    (result, set s inner)
  run := fun text params s =>
    let (result, inner) := e.run text params (get s)
    (result, set s inner)

end CodeAtlas.Graph
