import CodeAtlas.Proofs.Graph.Journal
import CodeAtlas.Proofs.Ingest.Group
import CodeAtlas.Proofs.Ingest.Input

/-!
# Runs keep to their protocol

A run is observed on a store that keeps a journal, and each call of its embedder is written into the same
journal, which is part of the state of the run.  Observed or not, the run is the same.  Whatever the embedder and
the store answer, the journal keeps to the protocol, from the first call to the last.

## Main definitions

* `CodeAtlas.Ingest.Asking.observed` — an embedder that is asked, observed.
* `CodeAtlas.Ingest.upsertAllObserved`, `CodeAtlas.Ingest.runFilesObserved` — the run, observed.

## Main results

* `CodeAtlas.Ingest.runFilesBy_of_hom` — a run whose state has an image, as the journal can be left out.
* `CodeAtlas.Ingest.standing_writeGroups`, `CodeAtlas.Ingest.standing_upsertAllObserved` — groups and whole
  lists of entities are written by the protocol.
* `CodeAtlas.Ingest.runFiles_keeps_to_protocol` — so is every run.
-/

namespace CodeAtlas.Ingest

open CodeAtlas.Graph CodeAtlas.Embedding

variable {σ σ' τ : Type}

/-! ## Observed runs -/

/-- Vectors are asked for, with a note in the journal for each call. -/
def Asking.observed (ask : Asking σ) : Asking (Observed σ) := fun call path e o =>
  let (answer, state) := ask call path e o.state
  (answer, Observed.note ⟨state, o.journal⟩ (.embed (failure? answer)))

/-- All entities embedded and written, observed. -/
def upsertAllObserved (store : Store σ τ) (embedder : Embedder) (clock : Nat → String) (batchSize : Nat)
    (batch : List Item) (entities : List (String × Entity)) : Writing (Observed σ) :=
  upsertAllBy store.observed (Asking.observed (asking embedder)) clock batchSize batch entities

/-- A run over given files, observed. -/
def runFilesObserved (store : Store σ τ) (embedder : Embedder) (clock : Nat → String) (batchSize : Nat)
    (inputs : List Input) (o : Observed σ) : Report × Observed σ :=
  runFilesBy store.observed (Asking.observed (asking embedder)) clock batchSize inputs o

section Hom

/-- Groups are written to a store as to its image. -/
theorem writeGroups_of_hom {store : Store σ τ} {store' : Store σ' τ} {f : σ → σ'}
    (h : store.Hom store' f) (clock : Nat → String) (groups : List Group) (p : Progress) (s : σ) :
    writeGroups store' clock groups p (f s) =
      Prod.map id (Prod.map id f) (writeGroups store clock groups p s) := by
  induction groups generalizing p s with
  | nil => rfl
  | cons g rest ih =>
    rw [writeGroups, writeGroups, h.upsertBatch]
    rcases Repository.upsertBatch store (clock p.groups) g.1 g.2 s with ⟨cause | _, s'⟩
    · rfl
    · exact ih _ s'

/-- So is a batch. -/
theorem flush_of_hom {store : Store σ τ} {store' : Store σ' τ} {f : σ → σ'} (h : store.Hom store' f)
    (clock : Nat → String) (batch : List Item) (p : Progress) (s : σ) :
    flush store' clock batch p (f s) = Prod.map id (Prod.map id f) (flush store clock batch p s) := by
  rw [flush, flush, writeGroups_of_hom h]
  rcases writeGroups store clock (groupByFile batch) { p with batches := p.batches + 1 } s with
    ⟨cause | _, q, s'⟩
  · rfl
  · rfl

variable {store : Store σ τ} {store' : Store σ' τ} {f : σ → σ'} {ask : Asking σ} {ask' : Asking σ'}

/-- Entities are embedded and written as they are in the image, if vectors are obtained so.

**Proof sketch.** Induction on the entities.  The answers to each question are the same, and so is what becomes of a
batch; in between, the states are images of each other. -/
theorem upsertAllBy_of_hom (h : store.Hom store' f)
    (hask : ∀ call path e s, ask' call path e (f s) = Prod.map id f (ask call path e s))
    (clock : Nat → String) (batchSize : Nat) (entities : List (String × Entity)) (batch : List Item)
    (p : Progress) (s : σ) :
    upsertAllBy store' ask' clock batchSize batch entities p (f s) =
      Prod.map id (Prod.map id f) (upsertAllBy store ask clock batchSize batch entities p s) := by
  induction entities generalizing batch p s with
  | nil =>
    rw [upsertAllBy, upsertAllBy]
    split_ifs
    · rfl
    · exact flush_of_hom h clock batch p s
  | cons x rest ih =>
    obtain ⟨path, e⟩ := x
    rw [upsertAllBy, upsertAllBy, hask]
    rcases ask p.calls path e s with ⟨cause | v, s'⟩
    · rfl
    · simp only [Prod.map_apply, id]
      split_ifs
      · rw [flush_of_hom h]
        generalize flush store clock _ _ s' = r
        rcases r with ⟨cause | _, q, s''⟩
        · rfl
        · exact ih [] q s''
      · exact ih _ _ s'

/-- **So are the files of a run.**

**Proof sketch.** The schema is set up alike on both stores, so either both runs end there with the same failure, or
both write the same entities from states of which one is the image of the other. -/
theorem runFilesBy_of_hom (h : store.Hom store' f)
    (hask : ∀ call path e s, ask' call path e (f s) = Prod.map id f (ask call path e s))
    (clock : Nat → String) (batchSize : Nat) (inputs : List Input) (s : σ) :
    runFilesBy store' ask' clock batchSize inputs (f s) =
      Prod.map id f (runFilesBy store ask clock batchSize inputs s) := by
  have hschema' := h.ensureSchema s
  rcases hschema : Repository.ensureSchema store s with ⟨cause | _, s'⟩
  · rw [hschema] at hschema'
    rw [runFilesBy_of_unready hschema, runFilesBy_of_unready hschema']
    rfl
  · rw [hschema] at hschema'
    rw [runFilesBy_of_ready hschema, runFilesBy_of_ready hschema']
    rw [upsertAllBy_of_hom h hask]
    rfl

end Hom

/-! ## The protocol -/

section Protocol

open Protocol

variable {known : List (String × Entity)} (store : Store σ τ) (embedder : Embedder)
  (clock : Nat → String)

/-- **Groups are written by the protocol**, if none is empty and their entities are known.

**Proof sketch.** Induction on the groups: each is written in a transaction of its own, which leads back outside if
it succeeds, and to the end of the protocol if it fails. -/
theorem standing_writeGroups {groups : List Group} (hne : ∀ g ∈ groups, g.2 ≠ [])
    (hknown : ∀ g ∈ groups, ∀ e ∈ g.2, (g.1, e.1) ∈ known) (p : Progress) {o : Observed σ}
    (h : standing known o.journal = some (.outside [])) :
    standing known (writeGroups store.observed clock groups p o).2.2.journal =
      some (ending (writeGroups store.observed clock groups p o).1) := by
  induction groups generalizing p o with
  | nil => exact h
  | cons g rest ih =>
    have hfirst := standing_upsertBatch store (hne g List.mem_cons_self)
      (hknown g List.mem_cons_self) (clock p.groups) h
    rw [writeGroups]
    generalize Repository.upsertBatch store.observed (clock p.groups) g.1 g.2 o = r at hfirst ⊢
    rcases r with ⟨f | _, o'⟩
    · exact hfirst
    · exact ih (fun g' hg' => hne g' (List.mem_cons_of_mem _ hg'))
        (fun g' hg' => hknown g' (List.mem_cons_of_mem _ hg')) _ hfirst

/-- So is a batch, which is never grouped into empty groups. -/
theorem standing_flush {batch : List Item} (hknown : ∀ i ∈ batch, (i.path, i.content.1) ∈ known)
    (p : Progress) {o : Observed σ} (h : standing known o.journal = some (.outside [])) :
    standing known (flush store.observed clock batch p o).2.2.journal =
      some (ending (flush store.observed clock batch p o).1) := by
  have hgroups := standing_writeGroups store clock (fun g => ne_nil_of_mem_groupByFile)
    (fun g hg e he => hknown ⟨g.1, e⟩ (mem_of_mem_groupByFile hg he))
    { p with batches := p.batches + 1 } h
  rw [flush]
  generalize writeGroups store.observed clock (groupByFile batch) { p with batches := p.batches + 1 } o
    = r at hgroups ⊢
  rcases r with ⟨f | _, q, o'⟩
  · exact hgroups
  · exact hgroups

/-- **Entities are embedded and written by the protocol.**

**Proof sketch.** Induction on the entities.  A call of the embedder is made outside any transaction.  If it
fails, the run is over.  If not, the batch with the new entity is written, or the next entity follows. -/
theorem standing_upsertAllObserved (batchSize : Nat) {entities : List (String × Entity)}
    {batch : List Item} (hbatch : ∀ i ∈ batch, (i.path, i.content.1) ∈ known)
    (hknown : ∀ x ∈ entities, x ∈ known) (p : Progress) {o : Observed σ}
    (h : standing known o.journal = some (.outside [])) :
    standing known
        (upsertAllObserved store embedder clock batchSize batch entities p o).2.2.journal =
      some (ending (upsertAllObserved store embedder clock batchSize batch entities p o).1) := by
  induction entities generalizing batch p o with
  | nil =>
    rw [upsertAllObserved, upsertAllBy]
    split_ifs
    · exact h
    · exact standing_flush store clock hbatch p h
  | cons x rest ih =>
    obtain ⟨path, e⟩ := x
    have hrest : ∀ x ∈ rest, x ∈ known := fun x hx => hknown x (List.mem_cons_of_mem _ hx)
    have hnote : standing known (o.note (.embed (failure? (embedEntity embedder p.calls path e)))).journal =
        some (branch (.outside []) .over (failure? (embedEntity embedder p.calls path e))) := by
      rw [Observed.note, standing_append_singleton, h]
      rfl
    rw [upsertAllObserved, upsertAllBy, Asking.observed, asking]
    dsimp only
    generalize o.note (.embed (failure? (embedEntity embedder p.calls path e))) = o' at hnote ⊢
    cases hanswer : embedEntity embedder p.calls path e with
    | error f =>
      rw [hanswer] at hnote
      exact hnote
    | ok v =>
      rw [hanswer] at hnote
      have hmore : ∀ i ∈ batch ++ [(⟨path, e, v⟩ : Item)], (i.path, i.content.1) ∈ known := by
        intro i hi
        rcases List.mem_append.mp hi with hi | hi
        · exact hbatch i hi
        · rw [List.mem_singleton.mp hi]
          exact hknown (path, e) List.mem_cons_self
      dsimp only
      split_ifs
      · have hflush := standing_flush store clock hmore { p with calls := p.calls + 1 } hnote
        generalize flush store.observed clock _ _ o' = r at hflush ⊢
        rcases r with ⟨f | _, q, o''⟩
        · exact hflush
        · exact ih (fun i hi => absurd hi List.not_mem_nil) hrest q hflush
      · exact ih hmore hrest _ hnote

/-- An observed run keeps to the protocol. -/
theorem standing_runFilesObserved (batchSize : Nat) (inputs : List Input) (s : σ) :
    standing (entitiesOf inputs)
        (runFilesObserved store embedder clock batchSize inputs { state := s }).2.journal =
      some (ending (runFilesObserved store embedder clock batchSize inputs { state := s }).1.result) := by
  have hstanding : standing (entitiesOf inputs) _ = _ := standing_ensureSchema store s
  rw [runFilesObserved]
  rcases hschema : Repository.ensureSchema store.observed { state := s } with ⟨f | _, o⟩
  · rw [hschema] at hstanding
    rw [runFilesBy_of_unready hschema]
    exact hstanding
  · rw [hschema] at hstanding
    rw [runFilesBy_of_ready hschema]
    exact standing_upsertAllObserved store embedder clock (max batchSize 1)
      (fun i hi => absurd hi List.not_mem_nil) (fun x hx => hx) {} hstanding

/-- **Every run keeps to its protocol.**  For any files, embedder and store, whatever fails, the run is
observed from its first call to its last, and is the same run when nobody observes it.  The calls of the
store in the journal are all the calls that the run makes.

The journal keeps to the protocol, and leads to a point outside any transaction if the run succeeds, and to
its end if it fails.  In particular a statement in a transaction that fails is followed by one rollback and
by nothing else, and any other failure, be it of the store or of the embedder, by nothing at all.

**Proof sketch.** The run is observed by a store that writes a journal into its state, and leaving the journal out
of the state gives the run itself; leaving all out but the calls of the store gives the traced run.  The protocol is
kept by the schema, by each call of the embedder and by each group; and what may follow a failure is read off the
protocol. -/
theorem runFiles_keeps_to_protocol (batchSize : Nat) (inputs : List Input) (s : σ) :
    let observed := runFilesObserved store embedder clock batchSize inputs { state := s }
    let journal := observed.2.journal
    runFiles store embedder clock batchSize inputs s = (observed.1, observed.2.state) ∧
    (runFiles store.traced embedder clock batchSize inputs { state := s }).2.calls.reverse =
      journal.filterMap Entry.call? ∧
    standing (entitiesOf inputs) journal = some (ending observed.1.result) ∧
    ∀ before e after, journal = before ++ e :: after → e.failed = true → Aftermath e after := by
  intro observed journal
  have hrun : runFiles store embedder clock batchSize inputs s = Prod.map id Observed.state observed :=
    runFilesBy_of_hom store.observed_hom (fun _ _ _ _ => rfl) clock batchSize inputs { state := s }
  have htraced : runFiles store.traced embedder clock batchSize inputs { state := s } =
      Prod.map id Observed.traced observed :=
    runFilesBy_of_hom store.observed_hom_traced
      (fun _ _ _ o => Prod.ext rfl (o.traced_note_embed _).symm) clock batchSize inputs { state := s }
  have hstanding : standing (entitiesOf inputs) journal = some (ending observed.1.result) :=
    standing_runFilesObserved store embedder clock batchSize inputs s
  refine ⟨hrun, ?_, hstanding, fun before e after hsplit hfailed => ?_⟩
  · rw [htraced]
    exact List.reverse_reverse _
  · rw [hsplit] at hstanding
    exact aftermath_of_standing hstanding hfailed

end Protocol

end CodeAtlas.Ingest
