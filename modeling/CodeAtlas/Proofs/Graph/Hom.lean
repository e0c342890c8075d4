import CodeAtlas.Graph.Repository
import CodeAtlas.Proofs.Graph.Buffered

/-!
# Maps between stores

A map from the states of one store to those of another is a homomorphism when a call of the one, seen
through the map, is the same call of the other: it gives the same result, and leads to the image of the
new state.  Whatever the repository does with the one, it does with the other.

So a store that only keeps a record beside what it does can be replaced by the store itself.

## Main definitions

* `CodeAtlas.Graph.Executor.Hom`, `CodeAtlas.Graph.Store.Hom` — homomorphisms.

## Main results

* `CodeAtlas.Graph.Executor.Hom.runAll` — statements sent in order.
* `CodeAtlas.Graph.Store.Hom.ensureSchema`, `CodeAtlas.Graph.Store.Hom.upsertBatch` — the repository.
-/

namespace CodeAtlas.Graph

variable {σ σ' τ : Type}

/-- A statement that is sent to the one, seen through the map, is sent to the other. -/
def Executor.Hom (e : Executor σ) (e' : Executor σ') (f : σ → σ') : Prop :=
  ∀ text params s, e'.run text params (f s) = Prod.map id f (e.run text params s)

/-- **Homomorphisms of stores.**  The transactions are the same. -/
structure Store.Hom (store : Store σ τ) (store' : Store σ' τ) (f : σ → σ') : Prop where
  /-- Statements outside any transaction. -/
  direct : store.direct.Hom store'.direct f
  /-- Statements inside a transaction. -/
  within : store.within.Hom store'.within (Prod.map f id)
  /-- New transactions. -/
  start : ∀ s, store'.start (f s) = Prod.map id f (store.start s)
  /-- Commits. -/
  commit : ∀ t s, store'.commit t (f s) = Prod.map id f (store.commit t s)
  /-- Rollbacks. -/
  rollback : ∀ t s, store'.rollback t (f s) = Prod.map id f (store.rollback t s)

namespace Executor.Hom

variable {e : Executor σ} {e' : Executor σ'} {f : σ → σ'}

/-- A query that cannot be sent is sent to neither. -/
lemma query (h : e.Hom e' f) (q : Query) (s : σ) : q.run e' (f s) = Prod.map id f (q.run e s) := by
  rw [Query.run, Query.run]
  cases q.fault with
  | some cause => rfl
  | none => exact h q.text q.params s

/-- **Statements sent in order.** -/
theorem runAll (h : e.Hom e' f) (queries : List Query) (s : σ) :
    Repository.runAll e' queries (f s) = Prod.map id f (Repository.runAll e queries s) := by
  induction queries generalizing s with
  | nil => rfl
  | cons q rest ih =>
    rw [Repository.runAll_cons, Repository.runAll_cons, h.query]
    rcases q.run e s with ⟨cause | _, s'⟩
    · rfl
    · exact ih s'

end Executor.Hom

namespace Store.Hom

variable {store : Store σ τ} {store' : Store σ' τ} {f : σ → σ'}

/-- The constraints of the store. -/
theorem ensureSchema (h : store.Hom store' f) (s : σ) :
    Repository.ensureSchema store' (f s) = Prod.map id f (Repository.ensureSchema store s) :=
  h.direct.runAll _ s

/-- **The entities of a file.**

**Proof sketch.** Step by step through the transaction: the start, the queries and then the commit or the rollback
are the same for both stores, up to the image of the state, so that both take the same branch. -/
theorem upsertBatch (h : store.Hom store' f) (now path : String) (entities : List Embedded) (s : σ) :
    Repository.upsertBatch store' now path entities (f s) =
      Prod.map id f (Repository.upsertBatch store now path entities s) := by
  rw [Repository.upsertBatch, Repository.upsertBatch, h.start]
  rcases store.start s with ⟨cause | t, s₁⟩
  · rfl
  · have hrun := h.within.runAll (Repository.fileQueries path now entities) (s₁, t)
    simp only [Prod.map_apply, id] at hrun ⊢
    rw [hrun]
    rcases Repository.runAll store.within (Repository.fileQueries path now entities) (s₁, t) with
      ⟨cause | _, s₂, t₂⟩
    · simp only [Prod.map_apply, id, h.rollback]
      rfl
    · simp only [Prod.map_apply, id, h.commit]
      rcases store.commit t₂ s₂ with ⟨cause | _, s₃⟩
      · rfl
      · rfl

end Store.Hom

end CodeAtlas.Graph
