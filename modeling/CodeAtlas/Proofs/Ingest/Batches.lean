import CodeAtlas.Ingest.Run
import CodeAtlas.Proofs.Ingest.Group

/-!
# The batches of a run

A run embeds entities one by one, collects them in a batch, and writes the batch, grouped by file, whenever
it is full.  Seen from the store, all this comes to writing one sequence of groups in order: that of the
consecutive pieces of the entities, each grouped by file.  A refusal of the embedder cuts the sequence
after the last piece that is complete before it.

## Main definitions

* `CodeAtlas.Ingest.chunks` — a list cut into consecutive pieces.
* `CodeAtlas.Ingest.itemsFrom` — entities with the vectors that the embedder gives them.
* `CodeAtlas.Ingest.firstRefusal` — the first entity for which there is no vector.
* `CodeAtlas.Ingest.writeFrom` — groups written in order up to the first that fails.

## Main results

* `CodeAtlas.Ingest.chunks_append` — a full batch is the first piece.
* `CodeAtlas.Ingest.writeFrom_append` — groups are written one after the other.
* `CodeAtlas.Ingest.upsertAll_eq` — a run writes the groups of its pieces up to the first refusal.
* `CodeAtlas.Ingest.progress_upsertAll` — how far a run has come when it succeeds.
-/

namespace CodeAtlas.Ingest

open CodeAtlas.Graph CodeAtlas.Embedding

/-! ## Pieces -/

section Chunks

variable {α : Type}

/-- The consecutive pieces of a list: all have `size` items, but for the last, which may have fewer. -/
def chunks (size : Nat) (items : List α) : List (List α) :=
  (List.range ((items.length + size - 1) / size)).map fun i => (items.drop (i * size)).take size

/-- Nothing is cut into no pieces. -/
theorem chunks_nil {size : Nat} (h : 0 < size) : chunks size ([] : List α) = [] := by
  have hzero : (0 + size - 1) / size = 0 := Nat.div_eq_of_lt (by omega)
  rw [chunks, List.length_nil, hzero, List.range_zero, List.map_nil]

/-- What is not longer than a piece is one piece. -/
theorem chunks_of_length_le {size : Nat} {items : List α} (hne : items ≠ [])
    (h : items.length ≤ size) : chunks size items = [items] := by
  have hpos : 0 < items.length := List.length_pos_of_ne_nil hne
  have hone : (items.length + size - 1) / size = 1 :=
    Nat.div_eq_of_lt_le (by omega) (by omega)
  rw [chunks, hone, List.range_one, List.map_singleton, Nat.zero_mul, List.drop_zero,
    List.take_of_length_le h]

/-- **A full batch is the first piece.**

**Proof sketch.** There is one piece more than for the rest.  The first is the beginning of the list, which is the
batch, and each later one begins a whole batch further on than it would in the rest. -/
theorem chunks_append {size : Nat} (hsize : 0 < size) {batch : List α} (h : batch.length = size)
    (rest : List α) : chunks size (batch ++ rest) = batch :: chunks size rest := by
  have hcount : ((batch ++ rest).length + size - 1) / size =
      (rest.length + size - 1) / size + 1 := by
    rw [List.length_append, h, show size + rest.length + size - 1 = rest.length + size - 1 + size by
      omega, Nat.add_div_right _ hsize]
  rw [chunks, hcount, List.range_succ_eq_map, List.map_cons, List.map_map, chunks]
  congr 1
  · rw [Nat.zero_mul, List.drop_zero, ← h, List.take_left]
  · refine List.map_congr_left fun i _ => ?_
    have hdrop : Nat.succ i * size = batch.length + i * size := by
      rw [Nat.succ_mul, h, Nat.add_comm]
    rw [Function.comp_apply, hdrop, List.drop_append, List.drop_eq_nil_of_le (Nat.le_add_right _ _),
      List.nil_append, Nat.add_sub_cancel_left]

/-- The first pieces together are the beginning of the list.

**Proof sketch.** Induction on the number of pieces.  A list that fits one piece is taken as a whole; otherwise the
first piece is full, and the others are the first pieces of the rest. -/
theorem flatten_take_chunks {size : Nat} (hsize : 0 < size) (items : List α) (count : Nat) :
    ((chunks size items).take count).flatten = items.take (count * size) := by
  induction count generalizing items with
  | zero => rw [List.take_zero, List.flatten_nil, Nat.zero_mul, List.take_zero]
  | succ count ih =>
    by_cases hle : items.length ≤ size
    · have hlong : items.length ≤ (count + 1) * size := by
        rw [Nat.succ_mul]
        omega
      rw [List.take_of_length_le hlong]
      rcases eq_or_ne items [] with rfl | hne
      · rw [chunks_nil hsize, List.take_nil, List.flatten_nil]
      · rw [chunks_of_length_le hne hle, List.take_succ_cons, List.take_nil, List.flatten_singleton]
    · have hlen : (items.take size).length = size := List.length_take_of_le (by omega)
      have hchunks := chunks_append hsize hlen (items.drop size)
      rw [List.take_append_drop] at hchunks
      rw [hchunks, List.take_succ_cons, List.flatten_cons, ih, Nat.succ_mul, Nat.add_comm,
        List.take_add]

/-- The pieces together are the list. -/
theorem flatten_chunks {size : Nat} (hsize : 0 < size) (items : List α) :
    (chunks size items).flatten = items := by
  have hlong : items.length ≤ (items.length + size - 1) / size * size := by
    have := Nat.div_add_mod' (items.length + size - 1) size
    have := Nat.mod_lt (items.length + size - 1) hsize
    omega
  have hflatten := flatten_take_chunks hsize items (chunks size items).length
  rw [List.take_length, chunks, List.length_map, List.length_range,
    List.take_of_length_le hlong] at hflatten
  exact hflatten

end Chunks

/-! ## Vectors -/

/-- The vector of an entity; none of its components if the embedder refuses it. -/
def vectorAt (embedder : Embedder) (call : Nat) (path : String) (e : Entity) : Embedding.Vector :=
  match embedEntity embedder call path e with
  | .ok v => v
  | .error _ => []

/-- Entities with their vectors; `call` counts the calls of the embedder before. -/
def itemsFrom (embedder : Embedder) (call : Nat) : List (String × Entity) → List Item
  | [] => []
  | (path, e) :: rest =>
    ⟨path, e, vectorAt embedder call path e⟩ :: itemsFrom embedder (call + 1) rest

/-- The first entity for which there is no vector, by the number of entities before it, and why. -/
def firstRefusal (embedder : Embedder) (call : Nat) :
    List (String × Entity) → Option (Nat × Failure)
  | [] => none
  | (path, e) :: rest =>
    match embedEntity embedder call path e with
    | .error f => some (0, f)
    | .ok _ => (firstRefusal embedder (call + 1) rest).map fun r => (r.1 + 1, r.2)

/-- There are as many items as entities. -/
@[simp] theorem length_itemsFrom (embedder : Embedder) (call : Nat)
    (entities : List (String × Entity)) :
    (itemsFrom embedder call entities).length = entities.length := by
  induction entities generalizing call with
  | nil => rfl
  | cons x rest ih => rw [itemsFrom, List.length_cons, ih, List.length_cons]

/-! ## Groups written in order -/

section Write

variable {σ τ : Type} (store : Store σ τ) (clock : Nat → String)

/-- Groups written in order up to the first that fails; `n` counts the groups written before. -/
def writeFrom (n : Nat) (groups : List Group) (s : σ) : Except Failure Unit × σ :=
  ((writeGroups store clock groups { groups := n } s).1,
    (writeGroups store clock groups { groups := n } s).2.2)

/-- How groups are written depends on nothing but how many were written before. -/
theorem writeGroups_eq_writeFrom (groups : List Group) (p : Progress) (s : σ) :
    ((writeGroups store clock groups p s).1, (writeGroups store clock groups p s).2.2) =
      writeFrom store clock p.groups groups s := by
  have hcongr : ∀ (groups : List Group) (p q : Progress) (s : σ), p.groups = q.groups →
      ((writeGroups store clock groups p s).1, (writeGroups store clock groups p s).2.2) =
        ((writeGroups store clock groups q s).1, (writeGroups store clock groups q s).2.2) := by
    intro groups
    induction groups with
    | nil => intros; rfl
    | cons g rest ih =>
      intro p q s hpq
      rw [writeGroups, writeGroups, hpq]
      rcases Repository.upsertBatch store (clock q.groups) g.1 g.2 s with ⟨f | _, s'⟩
      · rfl
      · exact ih _ _ s' rfl
  exact hcongr groups p { groups := p.groups } s rfl

/-- The first group decides whether the others are written. -/
theorem writeFrom_cons (n : Nat) (g : Group) (rest : List Group) (s : σ) :
    writeFrom store clock n (g :: rest) s =
      match Repository.upsertBatch store (clock n) g.1 g.2 s with
      | (.error f, s) => (.error f, s)
      | (.ok (), s) => writeFrom store clock (n + 1) rest s := by
  rw [writeFrom, writeGroups]
  dsimp only
  rcases Repository.upsertBatch store (clock n) g.1 g.2 s with ⟨f | _, s'⟩
  · rfl
  · exact writeGroups_eq_writeFrom store clock rest _ s'

/-- **Groups are written one after the other.** -/
theorem writeFrom_append (n : Nat) (xs ys : List Group) (s : σ) :
    writeFrom store clock n (xs ++ ys) s =
      match writeFrom store clock n xs s with
      | (.error f, s) => (.error f, s)
      | (.ok (), s) => writeFrom store clock (n + xs.length) ys s := by
  induction xs generalizing n s with
  | nil => rfl
  | cons g rest ih =>
    rw [List.cons_append, writeFrom_cons, writeFrom_cons]
    rcases Repository.upsertBatch store (clock n) g.1 g.2 s with ⟨f | _, s'⟩
    · rfl
    · dsimp only
      rw [ih, List.length_cons, Nat.add_assoc, Nat.add_comm 1]

/-- How far a run has come when all groups are written. -/
theorem progress_writeGroups {groups : List Group} {p : Progress} {s : σ}
    (h : (writeGroups store clock groups p s).1 = .ok ()) :
    (writeGroups store clock groups p s).2.1 =
      { p with
        groups := p.groups + groups.length
        written := p.written + (ungroup groups).length } := by
  induction groups generalizing p s with
  | nil => rfl
  | cons g rest ih =>
    rw [writeGroups] at h ⊢
    generalize Repository.upsertBatch store (clock p.groups) g.1 g.2 s = r at h ⊢
    rcases r with ⟨f | _, s'⟩
    · cases h
    · dsimp only at h ⊢
      rw [ih h, ungroup_cons, List.length_append, Group.items, List.length_map, List.length_cons,
        Nat.add_assoc, Nat.add_assoc, Nat.add_comm 1]

/-- A batch is written as its groups are. -/
theorem flush_eq_writeFrom (batch : List Item) (p : Progress) (s : σ) :
    ((flush store clock batch p s).1, (flush store clock batch p s).2.2) =
      writeFrom store clock p.groups (groupByFile batch) s := by
  have h := writeGroups_eq_writeFrom store clock (groupByFile batch)
    { p with batches := p.batches + 1 } s
  rw [← h, flush]
  rcases writeGroups store clock (groupByFile batch) { p with batches := p.batches + 1 } s with
    ⟨f | _, q, s'⟩ <;> rfl

/-- How far a run has come when a batch is written. -/
theorem progress_flush {batch : List Item} {p : Progress} {s : σ}
    (h : (flush store clock batch p s).1 = .ok ()) :
    (flush store clock batch p s).2.1 =
      { p with
        batches := p.batches + 1
        groups := p.groups + (groupByFile batch).length
        written := p.written + batch.length
        flushes := p.flushes ++ [batch.length] } := by
  have hprogress := @progress_writeGroups σ τ store clock (groupByFile batch)
    { p with batches := p.batches + 1 } s
  rw [flush] at h ⊢
  generalize writeGroups store clock (groupByFile batch) { p with batches := p.batches + 1 } s = w
    at h hprogress ⊢
  rcases w with ⟨f | _, q, s'⟩
  · cases h
  · dsimp only at h hprogress ⊢
    rw [hprogress rfl, length_ungroup_groupByFile]

end Write

/-! ## A run as a sequence of groups -/

/-- The pieces that are complete: all of them, or those before the first refusal. -/
def completed (size : Nat) (items : List Item) : Option (Nat × Failure) → List (List Item)
  | none => chunks size items
  | some (k, _) => (chunks size items).take (k / size)

/-- How a run ends when all that it writes succeeds. -/
def verdict : Option (Nat × Failure) → Except Failure Unit
  | none => .ok ()
  | some (_, f) => .error f

/-- Where a refusal is does not change how the run ends. -/
lemma verdict_map (shift : Nat → Nat) (refusal : Option (Nat × Failure)) :
    verdict (refusal.map fun r => (shift r.1, r.2)) = verdict refusal := by
  cases refusal <;> rfl

/-- A full batch is the first of the complete pieces. -/
lemma completed_append {size : Nat} (hsize : 0 < size) {batch : List Item}
    (h : batch.length = size) (rest : List Item) (refusal : Option (Nat × Failure)) :
    completed size (batch ++ rest) (refusal.map fun r => (batch.length + r.1, r.2)) =
      batch :: completed size rest refusal := by
  cases refusal with
  | none => exact chunks_append hsize h rest
  | some r =>
    obtain ⟨k, f⟩ := r
    rw [Option.map_some, completed, completed, chunks_append hsize h, h, Nat.add_comm,
      Nat.add_div_right _ hsize, List.take_succ_cons]

section Steps

variable {σ τ : Type} (store : Store σ τ) (embedder : Embedder) (clock : Nat → String) (size : Nat)
  (batch : List Item)

/-- After the last entity what is left in the batch is written. -/
lemma upsertAll_nil (p : Progress) (s : σ) :
    upsertAll store embedder clock size batch [] p s =
      if batch.isEmpty then (.ok (), p, s) else flush store clock batch p s := by
  rw [upsertAll, upsertAllBy]

/-- An entity is embedded and added to the batch, which is written if it is full. -/
lemma upsertAll_cons (path : String) (e : Entity) (rest : List (String × Entity)) (p : Progress) (s : σ) :
    upsertAll store embedder clock size batch ((path, e) :: rest) p s =
      match embedEntity embedder p.calls path e with
      | .error f => (.error f, { p with calls := p.calls + 1 }, s)
      | .ok v =>
        if size ≤ (batch ++ [(⟨path, e, v⟩ : Item)]).length then
          match flush store clock (batch ++ [⟨path, e, v⟩]) { p with calls := p.calls + 1 } s with
          | (.error f, p, s) => (.error f, p, s)
          | (.ok (), p, s) => upsertAll store embedder clock size [] rest p s
        else upsertAll store embedder clock size (batch ++ [⟨path, e, v⟩]) rest { p with calls := p.calls + 1 } s := by
  rw [upsertAll, upsertAllBy, asking]
  cases embedEntity embedder p.calls path e with
  | error f => rfl
  | ok v => rfl

end Steps

/-- **A run writes the groups of its pieces, up to the first refusal.**  Here some entities are already in
the batch.

**Proof sketch.** Induction on the entities.  An entity that is refused finds an incomplete batch, which is
dropped.  An entity that fills the batch makes it the first piece; any other one makes the batch longer.
At the end what is left in the batch is the last piece. -/
theorem upsertAll_eq {σ τ : Type} (store : Store σ τ) (embedder : Embedder) (clock : Nat → String)
    {size : Nat} (hsize : 0 < size) (entities : List (String × Entity)) :
    ∀ (batch : List Item), batch.length < size → ∀ (p : Progress) (s : σ),
      let refusal := (firstRefusal embedder p.calls entities).map fun r => (batch.length + r.1, r.2)
      let written := writeFrom store clock p.groups
        ((completed size (batch ++ itemsFrom embedder p.calls entities) refusal).flatMap groupByFile) s
      ((upsertAll store embedder clock size batch entities p s).1,
          (upsertAll store embedder clock size batch entities p s).2.2) =
        (written.1.bind fun _ => verdict refusal, written.2) := by
  induction entities with
  | nil =>
    intro batch hbatch p s
    rw [upsertAll_nil, firstRefusal, itemsFrom, List.append_nil]
    dsimp only [Option.map_none, completed]
    by_cases hempty : batch = []
    · rw [hempty, chunks_nil hsize]
      rfl
    · rw [if_neg (by simpa using hempty), chunks_of_length_le hempty (Nat.le_of_lt hbatch),
        List.flatMap_singleton, flush_eq_writeFrom]
      rcases writeFrom store clock p.groups (groupByFile batch) s with ⟨f | _, s'⟩ <;> rfl
  | cons x rest ih =>
    obtain ⟨path, e⟩ := x
    intro batch hbatch p s
    rw [upsertAll_cons, firstRefusal, itemsFrom, vectorAt]
    cases hembed : embedEntity embedder p.calls path e with
    | error f =>
      -- the batch is not full, so no piece is complete that is not written yet
      dsimp only [Option.map_some, completed]
      rw [Nat.add_zero, Nat.div_eq_of_lt hbatch, List.take_zero]
      rfl
    | ok v =>
      dsimp only
      rw [List.append_cons batch _ (itemsFrom embedder (p.calls + 1) rest), Option.map_map]
      generalize hfull : batch ++ [(⟨path, e, v⟩ : Item)] = full
      have hlength : full.length = batch.length + 1 := by
        rw [← hfull, List.length_append, List.length_singleton]
      have hshift : (fun r : Nat × Failure => (batch.length + r.1, r.2)) ∘
          (fun r : Nat × Failure => (r.1 + 1, r.2)) = fun r => (full.length + r.1, r.2) := by
        funext r
        rw [Function.comp_apply, hlength, Nat.add_assoc, Nat.add_comm 1]
      rw [hshift]
      by_cases hsize' : size ≤ full.length
      · have hlen : full.length = size := by omega
        rw [if_pos hsize', completed_append hsize hlen, List.flatMap_cons, writeFrom_append]
        have hflush := flush_eq_writeFrom store clock full { p with calls := p.calls + 1 } s
        have hprogress := @progress_flush σ τ store clock full { p with calls := p.calls + 1 } s
        rw [← hflush]
        generalize flush store clock full { p with calls := p.calls + 1 } s = w at hprogress ⊢
        rcases w with ⟨f | _, q, s'⟩
        · rfl
        · have hnext := ih [] hsize q s'
          obtain rfl : q = _ := hprogress rfl
          simpa [verdict_map] using hnext
      · rw [if_neg hsize']
        exact ih full (by omega) { p with calls := p.calls + 1 } s

/-- **How far a run has come when it succeeds.**  Here some entities are already in the batch.

**Proof sketch.** Induction on the entities, for any batch that is not full.  If the next item fills the batch, it
is written and is the first piece of what there is; otherwise the batch grows by the item, and the pieces are the
same. -/
theorem progress_upsertAll {σ τ : Type} (store : Store σ τ) (embedder : Embedder)
    (clock : Nat → String) {size : Nat} (hsize : 0 < size) (entities : List (String × Entity)) :
    ∀ (batch : List Item), batch.length < size → ∀ (p : Progress) (s : σ),
      (upsertAll store embedder clock size batch entities p s).1 = .ok () →
        let pieces := chunks size (batch ++ itemsFrom embedder p.calls entities)
        (upsertAll store embedder clock size batch entities p s).2.1 =
          { calls := p.calls + entities.length
            batches := p.batches + pieces.length
            groups := p.groups + (pieces.flatMap groupByFile).length
            written := p.written + (batch.length + entities.length)
            flushes := p.flushes ++ pieces.map List.length } := by
  induction entities with
  | nil =>
    intro batch hbatch p s hok
    rw [upsertAll_nil] at hok ⊢
    rw [itemsFrom, List.append_nil]
    by_cases hempty : batch = []
    · rw [hempty, chunks_nil hsize]
      simp
    · rw [if_neg (by simpa using hempty)] at hok ⊢
      rw [progress_flush store clock hok, chunks_of_length_le hempty (Nat.le_of_lt hbatch)]
      simp
  | cons x rest ih =>
    obtain ⟨path, e⟩ := x
    intro batch hbatch p s hok
    rw [upsertAll_cons] at hok ⊢
    rw [itemsFrom, vectorAt]
    cases hembed : embedEntity embedder p.calls path e with
    | error f =>
      rw [hembed] at hok
      cases hok
    | ok v =>
      rw [hembed] at hok
      dsimp only at hok ⊢
      rw [List.append_cons batch _ (itemsFrom embedder (p.calls + 1) rest)]
      generalize hfull : batch ++ [(⟨path, e, v⟩ : Item)] = full at hok ⊢
      have hlength : full.length = batch.length + 1 := by
        rw [← hfull, List.length_append, List.length_singleton]
      by_cases hsize' : size ≤ full.length
      · have hlen : full.length = size := by omega
        rw [if_pos hsize'] at hok ⊢
        rw [chunks_append hsize hlen]
        have hprogress := @progress_flush σ τ store clock full { p with calls := p.calls + 1 } s
        generalize flush store clock full { p with calls := p.calls + 1 } s = w at hok hprogress ⊢
        rcases w with ⟨f | _, q, s'⟩
        · cases hok
        · have hnext := ih [] hsize q s' hok
          obtain rfl : q = _ := hprogress rfl
          dsimp only at hnext ⊢
          rw [hnext]
          simp only [Progress.mk.injEq, List.nil_append, List.length_cons, List.length_nil,
            List.flatMap_cons, List.length_append, List.map_cons, List.append_assoc,
            List.singleton_append, and_true]
          omega
      · rw [if_neg hsize'] at hok ⊢
        rw [ih full (by omega) { p with calls := p.calls + 1 } s hok]
        simp only [Progress.mk.injEq, List.length_cons, true_and, and_true]
        omega

end CodeAtlas.Ingest
