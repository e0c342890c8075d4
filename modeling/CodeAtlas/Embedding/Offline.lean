import CodeAtlas.Digest.Sha256
import CodeAtlas.Number.Binary
import CodeAtlas.Text.Utf8

/-!
# Offline vectors

A vector that depends on the text alone: the bytes of its digest, repeated as often as needed, each
brought into the interval from `-0.5` to `0.5`.  Such vectors carry no meaning, but equal texts get
equal vectors at any time and place.

## Main definitions

* `CodeAtlas.Embedding.Offline.component` — the number of a byte.
* `CodeAtlas.Embedding.Offline.vector` — the vector of a text.
-/

namespace CodeAtlas.Embedding.Offline

open CodeAtlas.Number

/-- The number `b / 255 - 1 / 2`, rounded after the division and after the subtraction. -/
def component (b : UInt8) : Binary32 :=
  match (Binary32.ofRatio false b.toNat 255).datum with
  | .finite _ significand exponent =>
    let den := Nat.pow 2 (-exponent).toNat
    let num : Int := (2 * significand * Nat.pow 2 exponent.toNat : Nat) - (den : Int)
    .ofRatio (num < 0) num.natAbs (2 * den)
  | _ => ⟨0⟩

/-- The first `n` items of a list that begins with `rest` and goes on with the items of another one, again and
again; it ends with `rest` if there are none. -/
def cycleFrom {α : Type} (items : List α) : List α → Nat → List α
  | _, 0 => []
  | x :: rest, n + 1 => x :: cycleFrom items rest n
  | [], n + 1 =>
    match items with
    | [] => []
    | x :: rest => x :: cycleFrom items rest n

/-- The first `n` of the endlessly repeated items; none if there is nothing to repeat. -/
def cycle {α : Type} (items : List α) (n : Nat) : List α := cycleFrom items items n

/-- The vector of a text with `dimensions` components. -/
def vector (dimensions : Nat) (text : String) : List Binary32 :=
  (cycle (Digest.Sha256.digest (Text.Utf8.encode text)) dimensions).map component

end CodeAtlas.Embedding.Offline
