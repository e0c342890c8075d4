import CodeAtlas.Embedding.Offline
import CodeAtlas.Failure

/-!
# Embedders

An embedder turns a text into a vector.  Its answer may depend on how many calls it has received, so
that providers that fail or change their mind can be described.

## Main definitions

* `CodeAtlas.Embedding.Embedder` — what turns texts into vectors.
* `CodeAtlas.Embedding.Embedder.offline` — the embedder that needs no provider.
-/

namespace CodeAtlas.Embedding

/-- A vector. -/
abbrev Vector := List Number.Binary32

/-- What turns texts into vectors. -/
structure Embedder where
  /-- The number of components that its vectors should have. -/
  dimensions : Nat
  /-- The answer to a text, given the number of calls before. -/
  embed : Nat → String → Except Failure Vector

/-- The embedder that needs no provider. -/
def Embedder.offline (dimensions : Nat) : Embedder where
  dimensions := dimensions
  embed := fun _ text => .ok (Offline.vector dimensions text)

/-- The embedder that fails from call number `n` on. -/
def Embedder.failingAfter (n : Nat) (reason : String) (e : Embedder) : Embedder :=
  { e with embed := fun i text => if n ≤ i then .error (.embedding reason) else e.embed i text }

/-- The embedder that gives offline vectors of another length from call number `n` on. -/
def Embedder.wrongAfter (n length : Nat) (e : Embedder) : Embedder :=
  { e with
    embed := fun i text => if n ≤ i then .ok (Offline.vector length text) else e.embed i text }

end CodeAtlas.Embedding
