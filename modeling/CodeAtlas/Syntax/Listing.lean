import CodeAtlas.Json.Value
import CodeAtlas.Syntax.Tree

/-!
# Flat listings of trees

A listing has one row for each node, in pre-order, with the depth of the node.  The children of a node
are the rows after it that are one deeper, up to the next row that is not deeper than the node.

## Main definitions

* `CodeAtlas.Syntax.Listing` — rows of depth and node.
* `CodeAtlas.Syntax.Listing.tree?` — the tree of a listing.
* `CodeAtlas.Syntax.Listing.ofJson?` — a listing written in JSON.
-/

namespace CodeAtlas.Syntax

/-- Nodes with their depths, in pre-order. -/
abbrev Listing := List (Nat × Node)

namespace Listing

/-- The trees of the rows that follow, with one more row in front: the row becomes the parent of all
deeper trees up to the first that is not deeper. -/
def push (row : Nat × Node) (trees : List (Nat × Tree)) : List (Nat × Tree) :=
  let below := trees.takeWhile fun t => row.1 < t.1
  let children := (below.filter fun t => t.1 = row.1 + 1).map Prod.snd
  (row.1, .mk row.2 children) :: trees.drop below.length

/-- The trees of a listing, with the depths of their roots. -/
def forest (rows : Listing) : List (Nat × Tree) := rows.foldr push []

/-- The tree of a listing. -/
def tree? (rows : Listing) : Option Tree :=
  match forest rows with
  | [(_, t)] => some t
  | _ => none

/-- A row written in JSON: the depth of the node, its kind, whether it is named, its field or null, the
first byte and the one after the last, the first row and the last. -/
def row? : Json → Option (Nat × Node)
  | .arr [.int depth, .str kind, .int named, field, .int firstByte, .int endByte, .int firstRow,
      .int lastRow] =>
    let field :=
      match field with
      | .str s => some s
      | _ => none
    some (depth.toNat, ⟨kind, named ≠ 0, field, firstByte.toNat, endByte.toNat, firstRow.toNat,
      lastRow.toNat⟩)
  | _ => none

/-- A listing written in JSON as a list of its rows. -/
def ofJson? : Json → Option Listing
  | .arr rows => rows.mapM row?
  | _ => none

end Listing

end CodeAtlas.Syntax
