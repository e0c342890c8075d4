import Mathlib.Algebra.BigOperators.Group.List.Basic
import Mathlib.Algebra.GroupWithZero.Nat
import CodeAtlas.Proofs.Entity.Extraction
import CodeAtlas.Proofs.Ingest.Protocol
import CodeAtlas.Proofs.Ingest.Schedule

/-!
# The accounts of a run

A run that succeeds tells how many entities it wrote and how many there were in each of its batches.  Both
are known from the number of its entities alone: all batches are full but for the last, which holds what is
left.  How the entities are spread over files, and which of them share an identity, does not matter.

The embedder is called once for each entity.  The counter of the run says so, and so does the journal of the
run, in which every call of the embedder has its entry.

## Main definitions

* `CodeAtlas.Graph.Store.Keeps` — calls of the store leave something alone.
* `CodeAtlas.Graph.embedCalls` — the number of calls of the embedder in a journal.

## Main results

* `CodeAtlas.Ingest.map_length_chunks` — the sizes of the pieces of a list.
* `CodeAtlas.Ingest.calls_runFilesObserved` — the counter of a run counts the calls in its journal.
* `CodeAtlas.Ingest.runFiles_accounts_for_entities` — the accounts of a run that succeeds.
-/

namespace CodeAtlas

/-! ## What the store leaves alone -/

namespace Graph

variable {σ τ α : Type}

/-- **Calls of the store leave something alone**, whether they succeed or not. -/
structure Store.Keeps (store : Store σ τ) (view : σ → α) : Prop where
  /-- Statements outside any transaction. -/
  direct : ∀ text params s, view (store.direct.run text params s).2 = view s
  /-- Statements inside a transaction. -/
  within : ∀ text params s t, view (store.within.run text params (s, t)).2.1 = view s
  /-- New transactions. -/
  start : ∀ s, view (store.start s).2 = view s
  /-- Commits. -/
  commit : ∀ t s, view (store.commit t s).2 = view s
  /-- Rollbacks. -/
  rollback : ∀ t s, view (store.rollback t s).2 = view s

/-- Queries sent in order leave alone what single statements leave alone. -/
lemma Repository.runAll_keeps {ρ : Type} {e : Executor ρ} {view : ρ → α}
    (h : ∀ text params s, view (e.run text params s).2 = view s) (queries : List Query) (s : ρ) :
    view (runAll e queries s).2 = view s := by
  induction queries generalizing s with
  | nil => rfl
  | cons q rest ih =>
    have hfirst : view (q.run e s).2 = view s := by
      unfold Query.run
      cases q.fault with
      | some f => rfl
      | none => exact h q.text q.params s
    rw [runAll_cons]
    generalize q.run e s = r at hfirst ⊢
    rcases r with ⟨f | _, s'⟩
    · exact hfirst
    · exact (ih s').trans hfirst

namespace Store.Keeps

variable {store : Store σ τ} {view : σ → α}

/-- So does setting the constraints. -/
lemma ensureSchema (h : store.Keeps view) (s : σ) :
    view (Repository.ensureSchema store s).2 = view s :=
  Repository.runAll_keeps h.direct _ s

/-- So does storing a batch.

**Proof sketch.** Step by step through the transaction: its start, its queries and its end leave alone what is
looked at. -/
lemma upsertBatch (h : store.Keeps view) (now path : String) (entities : List Embedded) (s : σ) :
    view (Repository.upsertBatch store now path entities s).2 = view s := by
  have hstart := h.start s
  unfold Repository.upsertBatch
  generalize store.start s = r at hstart ⊢
  rcases r with ⟨f | t, s₁⟩
  · exact hstart
  · have hrun := @Repository.runAll_keeps α (σ × τ) store.within (fun x => view x.1)
      (fun text params x => h.within text params x.1 x.2) (Repository.fileQueries path now entities) (s₁, t)
    dsimp only at hstart hrun ⊢
    generalize Repository.runAll store.within (Repository.fileQueries path now entities) (s₁, t) = r
      at hrun ⊢
    rcases r with ⟨f | _, s₂, t₂⟩
    · exact (h.rollback t₂ s₂).trans (hrun.trans hstart)
    · have hcommit := h.commit t₂ s₂
      dsimp only at hrun ⊢
      generalize store.commit t₂ s₂ = r at hcommit ⊢
      rcases r with ⟨f | _, s₃⟩
      · exact hcommit.trans (hrun.trans hstart)
      · exact hcommit.trans (hrun.trans hstart)

end Store.Keeps

/-! ## Calls of the embedder in a journal -/

/-- The entry is a call of the embedder. -/
def Entry.isEmbed : Entry → Bool
  | .embed _ => true
  | .call _ _ => false

/-- The number of calls of the embedder in a journal. -/
def embedCalls (journal : List Entry) : Nat := journal.countP Entry.isEmbed

/-- A call of the embedder is one more. -/
@[simp] lemma embedCalls_embed (journal : List Entry) (failure : Option Failure) :
    embedCalls (journal ++ [.embed failure]) = embedCalls journal + 1 := by
  simp [embedCalls, Entry.isEmbed]

/-- A call of the store is none. -/
@[simp] lemma embedCalls_call (journal : List Entry) (call : Call) (failure : Option Failure) :
    embedCalls (journal ++ [.call call failure]) = embedCalls journal := by
  simp [embedCalls, Entry.isEmbed]

/-- No call of the store is a call of the embedder. -/
theorem Store.observed_keeps_embedCalls (store : Store σ τ) :
    store.observed.Keeps fun o => embedCalls o.journal where
  direct _ _ _ := embedCalls_call _ _ _
  within _ _ _ _ := embedCalls_call _ _ _
  start _ := embedCalls_call _ _ _
  commit _ _ := embedCalls_call _ _ _
  rollback _ _ := embedCalls_call _ _ _

end Graph

namespace Ingest

open CodeAtlas.Graph CodeAtlas.Embedding

/-! ## The sizes of batches -/

/-- **The sizes of the pieces of a list**: all are full but for the last, which has what is left.

**Proof sketch.** Strong induction on the length.  A list that is shorter than a piece is the only piece, or none if
it is empty.  Otherwise the first piece is full, and the rest is shorter by one piece, which takes one from the
quotient and leaves the remainder. -/
theorem map_length_chunks {α : Type} {size : Nat} (hsize : 0 < size) (items : List α) :
    (chunks size items).map List.length =
      List.replicate (items.length / size) size ++
        if items.length % size = 0 then [] else [items.length % size] := by
  induction hn : items.length using Nat.strong_induction_on generalizing items with
  | _ n ih =>
    subst hn
    by_cases hlt : items.length < size
    · -- there is no full piece
      rw [Nat.div_eq_of_lt hlt, Nat.mod_eq_of_lt hlt, List.replicate_zero, List.nil_append]
      by_cases hempty : items = []
      · rw [hempty, chunks_nil hsize]
        simp
      · rw [chunks_of_length_le hempty (Nat.le_of_lt hlt), if_neg (by simpa using hempty)]
        rfl
    · -- the first piece is full, and the others are those of the rest
      have hfirst : (items.take size).length = size := List.length_take_of_le (by omega)
      have hrest : (items.drop size).length = items.length - size := List.length_drop
      have hcut := chunks_append hsize hfirst (items.drop size)
      rw [List.take_append_drop] at hcut
      have hdiv : items.length / size = (items.length - size) / size + 1 :=
        Nat.div_eq_sub_div hsize (by omega)
      have hmod : items.length % size = (items.length - size) % size :=
        Nat.mod_eq_sub_mod (by omega)
      rw [hcut, List.map_cons, hfirst, ih (items.length - size) (by omega) _ hrest, hdiv, hmod,
        List.replicate_succ, List.cons_append]

/-- Together they are the length of the list. -/
lemma sum_map_length_chunks {α : Type} {size : Nat} (hsize : 0 < size) (items : List α) :
    ((chunks size items).map List.length).sum = items.length := by
  rw [← List.length_flatten, flatten_chunks hsize]

/-! ## The counter and the journal -/

section Counter

variable {σ τ : Type} (store : Store σ τ) (embedder : Embedder) (clock : Nat → String)

/-- Writing groups is no call of the embedder. -/
lemma calls_writeGroups (groups : List Group) (p : Progress) (s : σ) :
    (writeGroups store clock groups p s).2.1.calls = p.calls := by
  induction groups generalizing p s with
  | nil => rfl
  | cons g rest ih =>
    unfold writeGroups
    rcases Repository.upsertBatch store (clock p.groups) g.1 g.2 s with ⟨f | _, s'⟩
    · rfl
    · exact ih _ s'

/-- Neither is writing a batch. -/
lemma calls_flush (batch : List Item) (p : Progress) (s : σ) :
    (flush store clock batch p s).2.1.calls = p.calls := by
  have hgroups := calls_writeGroups store clock (groupByFile batch) { p with batches := p.batches + 1 } s
  unfold flush
  generalize writeGroups store clock (groupByFile batch) { p with batches := p.batches + 1 } s = w
    at hgroups ⊢
  rcases w with ⟨f | _, q, s'⟩
  · exact hgroups
  · exact hgroups

variable {store} in
/-- Writing groups leaves alone what calls of the store leave alone. -/
lemma keeps_writeGroups {α : Type} {view : σ → α} (h : store.Keeps view) (groups : List Group)
    (p : Progress) (s : σ) : view (writeGroups store clock groups p s).2.2 = view s := by
  induction groups generalizing p s with
  | nil => rfl
  | cons g rest ih =>
    have hfirst := h.upsertBatch (clock p.groups) g.1 g.2 s
    unfold writeGroups
    generalize Repository.upsertBatch store (clock p.groups) g.1 g.2 s = r at hfirst ⊢
    rcases r with ⟨f | _, s'⟩
    · exact hfirst
    · exact (ih _ s').trans hfirst

variable {store} in
/-- So does writing a batch. -/
lemma keeps_flush {α : Type} {view : σ → α} (h : store.Keeps view) (batch : List Item) (p : Progress)
    (s : σ) : view (flush store clock batch p s).2.2 = view s := by
  have hgroups := keeps_writeGroups clock h (groupByFile batch) { p with batches := p.batches + 1 } s
  unfold flush
  generalize writeGroups store clock (groupByFile batch) { p with batches := p.batches + 1 } s = w
    at hgroups ⊢
  rcases w with ⟨f | _, q, s'⟩
  · exact hgroups
  · exact hgroups

/-- The counter goes up with the calls in the journal, whether the entities can be written or not.

**Proof sketch.** Induction on the entities.  Each of them has one call, which is counted and has its entry.
A batch that is written in between changes neither. -/
lemma calls_upsertAllObserved (size : Nat) (entities : List (String × Entity)) (batch : List Item)
    (p : Progress) (o : Observed σ) (h : p.calls = embedCalls o.journal) :
    (upsertAllObserved store embedder clock size batch entities p o).2.1.calls =
      embedCalls (upsertAllObserved store embedder clock size batch entities p o).2.2.journal := by
  have hflush : ∀ (batch : List Item) (q : Progress) (o : Observed σ), q.calls = embedCalls o.journal →
      (flush store.observed clock batch q o).2.1.calls =
        embedCalls (flush store.observed clock batch q o).2.2.journal := by
    intro batch q o hq
    have hjournal := keeps_flush clock store.observed_keeps_embedCalls batch q o
    rw [calls_flush, hq]
    exact hjournal.symm
  induction entities generalizing batch p o with
  | nil =>
    rw [upsertAllObserved, upsertAllBy]
    split_ifs
    · exact h
    · exact hflush batch p o h
  | cons x rest ih =>
    obtain ⟨path, e⟩ := x
    rw [upsertAllObserved, upsertAllBy, Asking.observed, asking]
    dsimp only
    have hnext : p.calls + 1 =
        embedCalls (o.note (.embed (failure? (embedEntity embedder p.calls path e)))).journal := by
      rw [Observed.note, embedCalls_embed, h]
    generalize o.note (.embed (failure? (embedEntity embedder p.calls path e))) = o' at hnext ⊢
    cases embedEntity embedder p.calls path e with
    | error f => exact hnext
    | ok v =>
      dsimp only
      split_ifs
      · have hbatch := hflush (batch ++ [⟨path, e, v⟩]) { p with calls := p.calls + 1 } o' hnext
        generalize flush store.observed clock _ _ o' = r at hbatch ⊢
        rcases r with ⟨f | _, q, o''⟩
        · exact hbatch
        · exact ih [] q o'' hbatch
      · exact ih _ _ o' hnext

/-- **The counter of a run counts the calls of the embedder in its journal**, however the run ends. -/
theorem calls_runFilesObserved (batchSize : Nat) (inputs : List Input) (s : σ) :
    let observed := runFilesObserved store embedder clock batchSize inputs { state := s }
    observed.1.progress.calls = embedCalls observed.2.journal := by
  have hcalls := store.observed_keeps_embedCalls.ensureSchema { state := s }
  rw [runFilesObserved]
  rcases hschema : Repository.ensureSchema store.observed { state := s } with ⟨f | _, o⟩
  · rw [hschema] at hcalls
    rw [runFilesBy_of_unready hschema]
    exact hcalls.symm
  · rw [hschema] at hcalls
    rw [runFilesBy_of_ready hschema]
    exact calls_upsertAllObserved store embedder clock (max batchSize 1) _ [] {} o hcalls.symm

end Counter

/-! ## Runs that succeed -/

/-- **The accounts of a run that succeeds.**  Let its files have `n` entities in total, and let a batch hold
`size` of them.  Then `n / size` full batches were written, and after them one with the entities that are
left, if any are.  As many entities were written as there are, which is the sum of the batches, and the
embedder was called once for each: so says the counter of the run, and so does its journal.

**Proof sketch.** A run that succeeds has written all entities in pieces, which have the sizes of the pieces of a
list; and it has asked for a vector once for each.  The observed run is the same run, and its counter is the number
of calls in its journal. -/
theorem runFiles_accounts_for_entities {σ τ : Type} (store : Store σ τ) (embedder : Embedder)
    (clock : Nat → String) (batchSize : Nat) (inputs : List Input) (s : σ)
    (h : (runFiles store embedder clock batchSize inputs s).1.result = .ok ()) :
    let report := (runFiles store embedder clock batchSize inputs s).1
    let journal := (runFilesObserved store embedder clock batchSize inputs { state := s }).2.journal
    let n := (entitiesOf inputs).length
    let size := max batchSize 1
    report.summary.flushes =
        List.replicate (n / size) size ++ (if n % size = 0 then [] else [n % size]) ∧
      report.summary.written = n ∧ report.summary.flushes.sum = n ∧ report.progress.calls = n ∧
      embedCalls journal = n := by
  intro report journal n size
  have hsize : 0 < size := by omega
  have hjournal : report.progress.calls = embedCalls journal := by
    have hreport : report = (runFilesObserved store embedder clock batchSize inputs { state := s }).1 :=
      congrArg Prod.fst
        (runFilesBy_of_hom store.observed_hom (fun _ _ _ _ => rfl) clock batchSize inputs { state := s })
    rw [hreport]
    exact calls_runFilesObserved store embedder clock batchSize inputs s
  have haccounts : report.summary.flushes = (chunks size (itemsFrom embedder 0 (entitiesOf inputs))).map
        List.length ∧ report.summary.written = n ∧ report.progress.calls = n := by
    simp only [report, n]
    rw [runFiles] at h ⊢
    rcases hschema : Repository.ensureSchema store s with ⟨f | _, s'⟩
    · rw [runFilesBy_of_unready hschema] at h
      cases h
    · rw [runFilesBy_of_ready hschema] at h ⊢
      have hprogress := progress_upsertAll store embedder clock hsize (entitiesOf inputs) [] hsize {} s' h
      rw [upsertAll] at hprogress
      dsimp only
      rw [hprogress]
      simp [Summary.ofRun, size]
  obtain ⟨hflushes, hwritten, hcalls⟩ := haccounts
  refine ⟨?_, hwritten, ?_, hcalls, hjournal ▸ hcalls⟩
  · rw [hflushes, map_length_chunks hsize, length_itemsFrom]
  · rw [hflushes, sum_map_length_chunks hsize, length_itemsFrom]

/-- A file with one function has one entity. -/
lemma length_entitiesOf_functionFile (path absolute : String) :
    (entitiesOfInput (functionFile path absolute)).length = 1 := by
  have hparse : (functionFile path absolute).parse = .ok ⟨path, Entity.extract [] .python
      (.mk ⟨"function_definition", true, none, 0, 0, 0, 0⟩ [])⟩ := rfl
  rw [entitiesOfInput, hparse, List.length_map, Entity.extract_eq_filterMap_preorder]
  rfl

/-- Three files with one function each, of which the first and the last have the same identity, two at a
time. -/
theorem runFiles_accounts_for_entities_three_files :
    let inputs :=
      [functionFile "a.py" "/old/a.py", functionFile "b.py" "/b.py", functionFile "a.py" "/a.py"]
    let run := runFiles Memory.store (Embedder.offline 4) (fun _ => "now") 2 inputs {}
    run.1.result = .ok () ∧ run.1.summary.flushes = [2, 1] ∧ run.1.summary.written = 3 ∧
      run.1.summary.flushes.sum = 3 ∧ run.1.progress.calls = 3 := by
  dsimp only
  have hcount : (entitiesOf [functionFile "a.py" "/old/a.py", functionFile "b.py" "/b.py",
      functionFile "a.py" "/a.py"]).length = 3 := by
    simp [entitiesOf, length_entitiesOf_functionFile]
  generalize [functionFile "a.py" "/old/a.py", functionFile "b.py" "/b.py",
    functionFile "a.py" "/a.py"] = inputs at hcount ⊢
  obtain ⟨hok, -, -⟩ := runFiles_store (m := {}) (Embedder.offline_pure 4) rfl "now" 2 inputs
  have haccounts :=
    runFiles_accounts_for_entities Memory.store (Embedder.offline 4) (fun _ => "now") 2 inputs {} hok
  dsimp only at haccounts
  rw [hcount] at haccounts
  obtain ⟨hflushes, hwritten, hsum, hcalls, -⟩ := haccounts
  exact ⟨hok, hflushes, hwritten, hsum, hcalls⟩

end Ingest

end CodeAtlas
