import CodeAtlas.Graph.Store

/-!
# Stores that fail on purpose

A faulty store does what the store does, except that a chosen call of a kind fails.  A call that fails has
no effect.

## Main definitions

* `CodeAtlas.Graph.Faults` — which calls are going to fail.
* `CodeAtlas.Graph.Store.faulty` — the store that fails as told.
-/

namespace CodeAtlas.Graph

/-- Which following call of each kind fails, counted from one; zero for none. -/
structure Faults where
  /-- The start of a transaction. -/
  start : Nat := 0
  /-- A commit. -/
  commit : Nat := 0
  /-- A rollback. -/
  rollback : Nat := 0
  deriving DecidableEq, Repr

/-- A state together with the faults that are to come. -/
structure Faulty (σ : Type) where
  /-- The state of the store. -/
  state : σ
  /-- The faults that are to come. -/
  faults : Faults := {}

variable {σ τ α : Type}

/-- An action that fails when its counter, found and set by `count` and `set`, reaches one. -/
def faultAction (kind : String) (count : Faults → Nat) (set : Faults → Nat → Faults)
    (action : Action σ α) : Action (Faulty σ) α := fun t =>
  let n := count t.faults
  let faults := set t.faults (n - 1)
  if n = 1 then (.error (.internal s!"injected {kind} failure"), ⟨t.state, faults⟩)
  else
    let (result, state) := action t.state
    (result, ⟨state, faults⟩)

/-- The store that fails as told. -/
def Store.faulty (store : Store σ τ) : Store (Faulty σ) τ where
  direct := store.direct.lift Faulty.state fun t state => { t with state }
  within := store.within.lift (fun t => (t.1.state, t.2)) fun t inner =>
    ({ t.1 with state := inner.1 }, inner.2)
  start := faultAction "begin" Faults.start (fun f n => { f with start := n }) store.start
  commit := fun tx =>
    faultAction "commit" Faults.commit (fun f n => { f with commit := n }) (store.commit tx)
  rollback := fun tx =>
    faultAction "rollback" Faults.rollback (fun f n => { f with rollback := n })
      (store.rollback tx)
  abandon := fun tx t => { t with state := store.abandon tx t.state }

end CodeAtlas.Graph
