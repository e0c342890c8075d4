import CodeAtlas.Graph.Trace
import CodeAtlas.Proofs.Graph.Hom

/-!
# The journal of a run and its protocol

A store that keeps a journal does what the store does, and writes down every call with its failure, if it
has one.  The calls of the embedder are written into the same journal by the run.

The protocol of a run is an automaton that reads the journal.  First come the constraints of the store, in
order and outside any transaction.  Then the embedder is called and transactions are made.  A transaction
is begun, stores a file, then at least one entity, all of them entities of this file, and is committed.  When
a statement in a transaction fails, a rollback follows and nothing else; after any other failure nothing
follows at all.

## Main definitions

* `CodeAtlas.Graph.Entry` — an entry of the journal.
* `CodeAtlas.Graph.Store.observed` — the store that keeps a journal.
* `CodeAtlas.Graph.Protocol.State`, `CodeAtlas.Graph.Protocol.next` — the automaton.
* `CodeAtlas.Graph.Protocol.standing` — where a journal leads.
* `CodeAtlas.Graph.Protocol.ending` — where a run must lead, by its result.
* `CodeAtlas.Graph.Protocol.Aftermath` — what must follow a failure.

## Main results

* `CodeAtlas.Graph.Store.observed_hom`, `CodeAtlas.Graph.Store.observed_hom_traced` — the journal changes
  nothing, and its calls are those of the traced store.
* `CodeAtlas.Graph.Protocol.aftermath_of_standing` — the protocol allows nothing else after a failure.
* `CodeAtlas.Graph.Protocol.standing_ensureSchema`, `CodeAtlas.Graph.Protocol.standing_upsertBatch` — the
  repository keeps to the protocol, whatever the store answers.
-/

namespace CodeAtlas.Graph

/-! ## Journals -/

/-- An entry of the journal, with the failure if it failed. -/
inductive Entry where
  /-- A call of the store. -/
  | call (call : Call) (failure : Option Failure)
  /-- A call of the embedder. -/
  | embed (failure : Option Failure)

/-- The call of the store that is written down, if it is one. -/
def Entry.call? : Entry → Option Call
  | .call c _ => some c
  | .embed _ => none

/-- It failed. -/
def Entry.failed : Entry → Bool
  | .call _ failure => failure.isSome
  | .embed failure => failure.isSome

/-- A state together with the journal, oldest entry first. -/
structure Observed (σ : Type) where
  /-- The state of the store. -/
  state : σ
  /-- The journal. -/
  journal : List Entry := []

/-- The failure of a result. -/
def failure? {α : Type} : Except Failure α → Option Failure
  | .ok _ => none
  | .error f => some f

namespace Observed

variable {σ : Type}

/-- One more entry in the journal. -/
def note (o : Observed σ) (e : Entry) : Observed σ := { o with journal := o.journal ++ [e] }

/-- The calls of the store alone, newest first. -/
def traced (o : Observed σ) : Traced σ := ⟨o.state, (o.journal.filterMap Entry.call?).reverse⟩

/-- Calls of the embedder are no calls of the store. -/
@[simp] lemma traced_note_embed (o : Observed σ) (failure : Option Failure) :
    (o.note (.embed failure)).traced = o.traced := by
  simp [note, traced, Entry.call?]

end Observed

section Observed

variable {σ τ α : Type}

/-- An action of the store that is written into the journal as `call`. -/
def observe (call : Call) (action : Action σ α) : Action (Observed σ) α := fun o =>
  let (result, state) := action o.state
  (result, ⟨state, o.journal ++ [.call call (failure? result)]⟩)

/-- An action inside a transaction that is written into the journal as `call`. -/
def observeWithin (call : Call) (action : Action (σ × τ) α) : Action (Observed σ × τ) α :=
  fun (o, t) =>
    let (result, state, t) := action (o.state, t)
    (result, ⟨state, o.journal ++ [.call call (failure? result)]⟩, t)

/-- The store that keeps a journal. -/
def Store.observed (store : Store σ τ) : Store (Observed σ) τ where
  direct :=
    { execute := fun text params => observe (.direct text params) (store.direct.execute text params)
      run := fun text params => observe (.direct text params) (store.direct.run text params) }
  within :=
    { execute := fun text params => observeWithin (.within text params) (store.within.execute text params)
      run := fun text params => observeWithin (.within text params) (store.within.run text params) }
  start := observe .start store.start
  commit := fun t => observe .commit (store.commit t)
  rollback := fun t => observe .rollback (store.rollback t)
  abandon := fun t o => { o with state := store.abandon t o.state }

/-- **The journal changes nothing.** -/
theorem Store.observed_hom (store : Store σ τ) : store.observed.Hom store Observed.state where
  direct _ _ _ := rfl
  within _ _ _ := rfl
  start _ := rfl
  commit _ _ := rfl
  rollback _ _ := rfl

/-- **The calls in the journal are those of the traced store.** -/
theorem Store.observed_hom_traced (store : Store σ τ) :
    store.observed.Hom store.traced Observed.traced := by
  have hobserve : ∀ {α : Type} (call : Call) (action : Action σ α) (o : Observed σ),
      traceAction call action o.traced = Prod.map id Observed.traced (observe call action o) := by
    intro α call action o
    rw [traceAction, observe, Observed.traced]
    rcases action o.state with ⟨result, s⟩
    simp [Observed.traced, Entry.call?]
  have hwithin : ∀ (call : Call) (action : Action (σ × τ) Unit) (o : Observed σ) (t : τ),
      traceWithin call action (o.traced, t) =
        Prod.map id (Prod.map Observed.traced id) (observeWithin call action (o, t)) := by
    intro call action o t
    rw [traceWithin, observeWithin, Observed.traced]
    rcases action (o.state, t) with ⟨result, s, t'⟩
    simp [Observed.traced, Entry.call?]
  exact ⟨fun text params o => hobserve _ _ o, fun text params x => hwithin _ _ x.1 x.2,
    fun o => hobserve _ _ o, fun t o => hobserve _ _ o, fun t o => hobserve _ _ o⟩

end Observed

/-! ## The protocol -/

namespace Protocol

/-- Where a run stands. -/
inductive State where
  /-- Outside any transaction, with these constraints still to be set. -/
  | outside (schema : List Statement)
  /-- A transaction has been begun. -/
  | opened
  /-- The transaction has stored a file and so many entities. -/
  | storing (path : String) (count : Nat)
  /-- A statement of the transaction has failed. -/
  | refused
  /-- Nothing may follow. -/
  | over
  deriving DecidableEq

/-- A text among the parameters of a statement. -/
def textOf (params : Params) (name : String) : Option String :=
  match params.get? name with
  | some (.str s) => some s
  | _ => none

/-- The parameters are those of some entity of the file at `path`. -/
def Names (entities : List (String × Entity)) (path : String) (params : Params) : Prop :=
  textOf params "path" = some path ∧
    ∃ x ∈ entities, x.1 = path ∧ textOf params "uid" = some (x.2.uid path)

instance (entities : List (String × Entity)) (path : String) (params : Params) :
    Decidable (Names entities path params) :=
  inferInstanceAs (Decidable (_ ∧ _))

/-- Where an entry leads, by whether it fails. -/
def branch (good bad : State) : Option Failure → State
  | none => good
  | some _ => bad

/-- **The protocol**: where an entry leads, if it is allowed.  The entities are those of the files of the
run. -/
def next (entities : List (String × Entity)) : State → Entry → Option State
  | .outside (x :: rest), .call (.direct text params) failure =>
    if text = x.text ∧ params.isEmpty then some (branch (.outside rest) .over failure) else none
  | .outside [], .embed failure => some (branch (.outside []) .over failure)
  | .outside [], .call .start failure => some (branch .opened .over failure)
  | .opened, .call (.within text params) failure =>
    if text = Statement.upsertFile.text then
      (textOf params "path").map fun path => branch (.storing path 0) .refused failure
    else none
  | .storing path count, .call (.within text params) failure =>
    if text = Statement.upsertEntity.text ∧ Names entities path params then
      some (branch (.storing path (count + 1)) .refused failure)
    else none
  | .storing _ (_ + 1), .call .commit failure => some (branch (.outside []) .over failure)
  | .refused, .call .rollback _ => some .over
  | _, _ => none

/-- A transaction without entities may not be committed. -/
example : next [("a.py", ⟨.function, "f", .python, 1, 2, "def f(): pass", ""⟩)] (.storing "a.py" 0)
    (.call .commit none) = none := rfl

/-- Where a journal leads, if all of it is allowed. -/
def standing (entities : List (String × Entity)) (journal : List Entry) : Option State :=
  journal.foldlM (next entities) (.outside Statement.schema)

/-- Where a run must lead: if it succeeds, everything is closed, and otherwise it is over. -/
def ending : Except Failure Unit → State
  | .ok () => .outside []
  | .error _ => .over

section Standing

variable {σ τ α : Type} {entities : List (String × Entity)}

/-- One more entry. -/
lemma standing_append_singleton (journal : List Entry) (e : Entry) :
    standing entities (journal ++ [e]) = (standing entities journal).bind fun st => next entities st e := by
  rw [standing, List.foldlM_append, ← standing]
  cases standing entities journal with
  | none => rfl
  | some st => simp

/-- **What must follow an entry that fails**: one rollback and nothing else, if it is a statement in a
transaction, and otherwise nothing at all. -/
def Aftermath : Entry → List Entry → Prop
  | .call (.within _ _) _, after => ∃ failure, after = [.call .rollback failure]
  | _, after => after = []

/-- Where a failure leads. -/
def afterFailure : Entry → State
  | .call (.within _ _) _ => .refused
  | _ => .over

/-- A failure leads there.

**Proof sketch.** By the lines of the protocol.  Each of them leads on by whether the call failed, and the state for
a failure is the same in all lines for the same kind of call. -/
lemma eq_afterFailure_of_next {st st' : State} {e : Entry} (h : next entities st e = some st')
    (hfailed : e.failed = true) : st' = afterFailure e := by
  have hbranch : ∀ {good bad : State} {failure : Option Failure}, failure.isSome = true →
      branch good bad failure = bad := by
    intro good bad failure hsome
    obtain ⟨f, rfl⟩ := Option.isSome_iff_exists.mp hsome
    rfl
  rw [next.eq_def] at h
  -- one case for each line of the protocol
  split at h
  · obtain ⟨-, h⟩ := Option.ite_none_right_eq_some.mp h
    rw [hbranch hfailed] at h
    exact (Option.some.inj h).symm
  · rw [hbranch hfailed] at h
    exact (Option.some.inj h).symm
  · rw [hbranch hfailed] at h
    exact (Option.some.inj h).symm
  · obtain ⟨-, h⟩ := Option.ite_none_right_eq_some.mp h
    obtain ⟨path, -, h⟩ := Option.map_eq_some_iff.mp h
    rw [hbranch hfailed] at h
    exact h.symm
  · obtain ⟨-, h⟩ := Option.ite_none_right_eq_some.mp h
    rw [hbranch hfailed] at h
    exact (Option.some.inj h).symm
  · rw [hbranch hfailed] at h
    exact (Option.some.inj h).symm
  · exact (Option.some.inj h).symm
  · cases h

/-- Nothing follows when a run is over. -/
lemma eq_nil_of_over {journal : List Entry} {st : State}
    (h : journal.foldlM (next entities) .over = some st) : journal = [] := by
  cases journal with
  | nil => rfl
  | cons e rest =>
    rw [List.foldlM_cons] at h
    cases h

/-- A run whose statement has failed makes a rollback, and is over. -/
lemma eq_rollback_of_refused {journal : List Entry} {result : Except Failure Unit}
    (h : journal.foldlM (next entities) .refused = some (ending result)) :
    ∃ failure, journal = [.call .rollback failure] := by
  cases journal with
  | nil => rcases result with _ | _ <;> cases h
  | cons e rest =>
    rw [List.foldlM_cons] at h
    obtain ⟨st, he, hrest⟩ := Option.bind_eq_some_iff.mp h
    rcases e with ⟨_ | _ | _ | _ | _, failure⟩ | failure
    all_goals cases he
    exact ⟨failure, by rw [eq_nil_of_over hrest]⟩

/-- **A journal that leads to the end of a run tells of nothing after a failure but what must follow.**

**Proof sketch.** The journal leads to the failed entry and from there to the state after a failure.  If that is the
end, no entry can follow; if it is a refused transaction, only a rollback can. -/
theorem aftermath_of_standing {before after : List Entry} {e : Entry} {result : Except Failure Unit}
    (h : standing entities (before ++ e :: after) = some (ending result)) (hfailed : e.failed = true) :
    Aftermath e after := by
  rw [standing, List.foldlM_append] at h
  obtain ⟨st, -, h⟩ := Option.bind_eq_some_iff.mp h
  rw [List.foldlM_cons] at h
  obtain ⟨st', he, hafter⟩ := Option.bind_eq_some_iff.mp h
  rw [eq_afterFailure_of_next he hfailed] at hafter
  rcases e with ⟨_ | _ | _ | _ | _, failure⟩ | failure
  · exact eq_nil_of_over hafter
  · exact eq_nil_of_over hafter
  · exact eq_rollback_of_refused hafter
  · exact eq_nil_of_over hafter
  · exact eq_nil_of_over hafter
  · exact eq_nil_of_over hafter

/-- What a call does to where a run stands. -/
lemma standing_observe {o : Observed σ} {st : State} (h : standing entities o.journal = some st)
    (call : Call) (action : Action σ α) :
    standing entities (observe call action o).2.journal =
      next entities st (.call call (failure? (observe call action o).1)) := by
  rw [observe]
  rcases action o.state with ⟨result, s⟩
  rw [standing_append_singleton, h]
  rfl

/-- The same inside a transaction. -/
lemma standing_observeWithin {o : Observed σ} {st : State} (h : standing entities o.journal = some st)
    (call : Call) (action : Action (σ × τ) α) (t : τ) :
    standing entities (observeWithin call action (o, t)).2.1.journal =
      next entities st (.call call (failure? (observeWithin call action (o, t)).1)) := by
  rw [observeWithin]
  rcases action (o.state, t) with ⟨result, s, t'⟩
  rw [standing_append_singleton, h]
  rfl

/-! ## The repository -/

variable (store : Store σ τ)

/-- The statements of the schema are sent in order. -/
lemma standing_schema (schema : List Statement) {o : Observed σ}
    (h : standing entities o.journal = some (.outside schema)) :
    standing entities
        (Repository.runAll store.observed.direct (schema.map Repository.query) o).2.journal =
      some (ending (Repository.runAll store.observed.direct (schema.map Repository.query) o).1) := by
  induction schema generalizing o with
  | nil => exact h
  | cons x rest ih =>
    have hcall := standing_observe h (.direct x.text []) (store.direct.run x.text [])
    rw [next, if_pos ⟨rfl, rfl⟩] at hcall
    have hquery : (Repository.query x).run store.observed.direct o =
        observe (.direct x.text []) (store.direct.run x.text []) o := rfl
    rw [List.map_cons, Repository.runAll_cons, hquery]
    generalize observe (.direct x.text []) (store.direct.run x.text []) o = r at hcall ⊢
    rcases r with ⟨f | _, o'⟩
    · exact hcall
    · exact ih hcall

/-- **The constraints come first.** -/
theorem standing_ensureSchema (s : σ) :
    standing entities (Repository.ensureSchema store.observed { state := s }).2.journal =
      some (ending (Repository.ensureSchema store.observed { state := s }).1) :=
  standing_schema store Statement.schema rfl

/-- A statement in a transaction leads where the protocol says. -/
lemma standing_query {o : Observed σ} {st good bad : State} {q : Query}
    (h : standing entities o.journal = some st) (hfault : q.fault = none)
    (hnext : ∀ failure, next entities st (.call (.within q.text q.params) failure) =
      some (branch good bad failure)) (t : τ) :
    standing entities (q.run store.observed.within (o, t)).2.1.journal =
      some (branch good bad (failure? (q.run store.observed.within (o, t)).1)) := by
  rw [Query.run, hfault, ← hnext]
  exact standing_observeWithin h (.within q.text q.params) (store.within.run q.text q.params) t

/-- The statement of a file is allowed at the beginning of a transaction. -/
lemma next_fileQuery (path now : String) (failure : Option Failure) :
    next entities .opened (.call (.within (Repository.fileQuery path now).text
      (Repository.fileQuery path now).params) failure) =
        some (branch (.storing path 0) .refused failure) := by
  have htext : (Repository.fileQuery path now).text = Statement.upsertFile.text := rfl
  have hpath : textOf (Repository.fileQuery path now).params "path" = some path := by
    simp [textOf, Repository.get?_fileQuery]
  rw [next, if_pos htext, hpath, Option.map_some]

/-- The statement of an entity of the file is allowed behind that of the file. -/
lemma next_entityQuery {path : String} {e : Embedded} (h : (path, e.1) ∈ entities) (now : String)
    (count : Nat) (failure : Option Failure) :
    next entities (.storing path count) (.call (.within (Repository.entityQuery path now e).text
      (Repository.entityQuery path now e).params) failure) =
        some (branch (.storing path (count + 1)) .refused failure) := by
  have hnames : Names entities path (Repository.entityQuery path now e).params := by
    refine ⟨?_, (path, e.1), h, rfl, ?_⟩
    · simp [textOf, Repository.get?_entityQuery]
    · simp [textOf, Repository.get?_entityQuery]
  rw [next, if_pos ⟨rfl, hnames⟩]

/-- The statements of entities are sent in order.

**Proof sketch.** Induction on the batch.  The statement of an entity of the run is allowed while its file is being
stored, and counts as one more; if it fails, the transaction is refused and no other statement is sent. -/
lemma standing_entityQueries {path : String} {batch : List Embedded}
    (hbatch : ∀ e ∈ batch, (path, e.1) ∈ entities) (now : String) {count : Nat} {o : Observed σ}
    (h : standing entities o.journal = some (.storing path count)) (t : τ) :
    let r := Repository.runAll store.observed.within (batch.map (Repository.entityQuery path now)) (o, t)
    standing entities r.2.1.journal =
      some (branch (.storing path (count + batch.length)) .refused (failure? r.1)) := by
  induction batch generalizing count o t with
  | nil => exact h
  | cons e rest ih =>
    have hfirst := standing_query store h rfl
      (next_entityQuery (hbatch e List.mem_cons_self) now count) t
    rw [List.map_cons, Repository.runAll_cons]
    generalize (Repository.entityQuery path now e).run store.observed.within (o, t) = r at hfirst ⊢
    rcases r with ⟨f | _, o', t'⟩
    · exact hfirst
    · have hrest := ih (fun e he => hbatch e (List.mem_cons_of_mem _ he)) hfirst t'
      rw [List.length_cons, Nat.add_comm rest.length, ← Nat.add_assoc]
      exact hrest

/-- The statements of a batch are sent in order, that of the file first. -/
lemma standing_fileQueries {path : String} {batch : List Embedded}
    (hbatch : ∀ e ∈ batch, (path, e.1) ∈ entities) (now : String) {o : Observed σ}
    (h : standing entities o.journal = some .opened) (t : τ) :
    let r := Repository.runAll store.observed.within (Repository.fileQueries path now batch) (o, t)
    standing entities r.2.1.journal =
      some (branch (.storing path batch.length) .refused (failure? r.1)) := by
  have hfile := standing_query store h rfl (next_fileQuery path now) t
  rw [Repository.fileQueries, Repository.runAll_cons]
  generalize (Repository.fileQuery path now).run store.observed.within (o, t) = r at hfile ⊢
  rcases r with ⟨f | _, o', t'⟩
  · exact hfile
  · have hentities := standing_entityQueries store hbatch now hfile t'
    rw [Nat.zero_add] at hentities
    exact hentities

/-- **A batch that is not empty keeps to the protocol**, whatever the store answers.

**Proof sketch.** The start, the statements and the end of the transaction are each one step of the protocol.  The
rollback is sent after a refusal only, and the commit after at least one entity, as the protocol demands, since the
batch is not empty. -/
theorem standing_upsertBatch {path : String} {batch : List Embedded} (hne : batch ≠ [])
    (hbatch : ∀ e ∈ batch, (path, e.1) ∈ entities) (now : String) {o : Observed σ}
    (h : standing entities o.journal = some (.outside [])) :
    standing entities (Repository.upsertBatch store.observed now path batch o).2.journal =
      some (ending (Repository.upsertBatch store.observed now path batch o).1) := by
  have hstart : standing entities (store.observed.start o).2.journal =
      some (branch .opened .over (failure? (store.observed.start o).1)) :=
    standing_observe h .start store.start
  rw [Repository.upsertBatch]
  generalize store.observed.start o = r₁ at hstart ⊢
  rcases r₁ with ⟨f | t, o₁⟩
  · exact hstart
  · have hqueries := standing_fileQueries store hbatch now hstart t
    dsimp only at hqueries ⊢
    generalize Repository.runAll store.observed.within (Repository.fileQueries path now batch) (o₁, t) = r₂
      at hqueries ⊢
    rcases r₂ with ⟨f | _, o₂, t₂⟩
    · exact standing_observe hqueries .rollback (store.rollback t₂)
    · -- the batch is not empty, so that the commit is allowed
      obtain ⟨n, hn⟩ := Nat.exists_eq_succ_of_ne_zero (mt List.length_eq_zero_iff.mp hne)
      rw [hn] at hqueries
      have hcommit : standing entities (store.observed.commit t₂ o₂).2.journal =
          some (branch (.outside []) .over (failure? (store.observed.commit t₂ o₂).1)) :=
        standing_observe hqueries .commit (store.commit t₂)
      dsimp only
      generalize store.observed.commit t₂ o₂ = r₃ at hcommit ⊢
      rcases r₃ with ⟨f | _, o₃⟩
      · exact hcommit
      · exact hcommit

end Standing

end Protocol

end CodeAtlas.Graph
