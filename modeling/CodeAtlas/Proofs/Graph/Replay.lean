import Mathlib.Data.List.Induction
import CodeAtlas.Proofs.Graph.Buffered
import CodeAtlas.Proofs.Graph.Read

/-!
# Serial replay

A session on the graph in memory may hold any number of open transactions, whose statements come in any
order, between statements outside any transaction and calls of the repository.  Every call may fail.

What the graph holds can be told from the answers alone.  A ledger notes what each open transaction has
accepted, and, in order, what was committed: a write outside a transaction when it succeeds, and all that
a transaction has accepted when its commit succeeds.  Applied one after the other to the empty graph, what
was committed gives the graph.

## Main definitions

* `CodeAtlas.Graph.Event` — something that happens to the graph.
* `CodeAtlas.Graph.history` — events with their answers, and the session after them.
* `CodeAtlas.Graph.Ledger`, `CodeAtlas.Graph.ledger` — what events and answers tell.
* `CodeAtlas.Graph.replay` — writes applied to the empty graph.

## Main results

* `CodeAtlas.Graph.Ledger.Describes.record` — one event keeps the ledger true.
* `CodeAtlas.Graph.describes_history` — so does every history.
* `CodeAtlas.Graph.contents_eq_replay_committed` — the graph is what the committed writes make of the empty
  one.
-/

namespace CodeAtlas.Graph

open Memory (Contents Pending writesOf)

/-! ## Events -/

/-- Something that happens to the graph in memory. -/
inductive Event where
  /-- A step of the session at a time. -/
  | step (now : String) (step : Step)
  /-- From now on every write to a path fails. -/
  | failWrites (path : String)

/-- The answer to an event, and the session after it. -/
def Event.occur (event : Event) (s : Session Memory Pending) : Answer × Session Memory Pending :=
  match event with
  | .step now action => s.perform Memory.store now action
  | .failWrites path => (.done, { s with state := s.state.failWritesFor path })

/-- A history with one more event. -/
def extend (h : List (Event × Answer) × Session Memory Pending) (event : Event) :
    List (Event × Answer) × Session Memory Pending :=
  (h.1 ++ [(event, (event.occur h.2).1)], (event.occur h.2).2)

/-- Events with their answers, and the session after them, from the empty graph. -/
def history (events : List Event) : List (Event × Answer) × Session Memory Pending :=
  events.foldl extend ([], { state := {} })

/-! ## The ledger -/

/-- What can be told from events and answers. -/
structure Ledger where
  /-- The writes that were committed, in order. -/
  committed : Pending := []
  /-- The writes that the transaction under a name has accepted, in order. -/
  accepted : String → Pending := fun _ => []

namespace Ledger

/-- The writes that an event commits if it succeeds. -/
def commits (l : Ledger) : Event → Pending
  | .step _ .schema => Statement.schema.map fun statement => (statement, [])
  | .step now (.upsert path entities) => Repository.fileWrites path now entities
  | .step _ (.commit name) => l.accepted name
  | .step _ (.query _ q none) => writesOf q.text q.params
  | _ => []

/-- The writes that transactions have accepted after an event that succeeds. -/
def accepts (l : Ledger) : Event → String → Pending
  | .step _ (.start name), other => if other = name then [] else l.accepted other
  | .step _ (.query _ q (some name)), other =>
    if other = name then l.accepted name ++ writesOf q.text q.params else l.accepted other
  | _, other => l.accepted other

/-- The ledger after an event with its answer.  An event that fails is not noted. -/
def record (l : Ledger) (o : Event × Answer) : Ledger :=
  if o.2.succeeded then ⟨l.committed ++ l.commits o.1, l.accepts o.1⟩ else l

end Ledger

/-- The ledger of events and answers. -/
def ledger (observed : List (Event × Answer)) : Ledger := observed.foldl Ledger.record {}

/-- Writes applied in order to the empty graph. -/
def replay (writes : Pending) : Except Failure Contents := Contents.applyAll {} writes

/-- The answer to a query by a graph that holds nothing but these writes. -/
def replayRead (mode : Mode) (q : Query) (writes : Pending) : Answer :=
  match replay writes with
  | .error f => .failed f
  | .ok c => (q.send mode Memory.store.direct { contents := c }).1

/-! ## The ledger describes the session -/

namespace Ledger

/-- **The ledger is true**: the graph is the replay of what was committed, and in every open transaction
waits what it has accepted. -/
structure Describes (l : Ledger) (s : Session Memory Pending) : Prop where
  /-- What the graph holds. -/
  contents : replay l.committed = .ok s.state.contents
  /-- What waits in a transaction. -/
  accepted : ∀ {name p}, s.opened.get? name = some p → l.accepted name = p

/-- What is committed stays committed. -/
lemma committed_record (l : Ledger) (o : Event × Answer) :
    l.committed <+: (l.record o).committed := by
  rw [record]
  split_ifs
  · exact List.prefix_append _ _
  · exact List.prefix_rfl

/-- An event that commits nothing, or fails, leaves what is committed. -/
lemma committed_record_eq (l : Ledger) {event : Event} {answer : Answer}
    (h : answer.succeeded = false ∨ l.commits event = []) :
    (l.record (event, answer)).committed = l.committed := by
  rw [record]
  split_ifs with hanswer
  · rcases h with hfailed | hnothing
    · rw [hfailed] at hanswer
      cases hanswer
    · rw [hnothing, List.append_nil]
  · rfl

namespace Describes

variable {l : Ledger} {s s' : Session Memory Pending}

/-- The ledger of an empty session. -/
theorem empty : Describes {} { state := {} } where
  contents := rfl
  accepted h := nomatch h

/-- An event that fails leaves the ledger true, if the graph is the same and no transaction is new. -/
lemma of_failed (h : l.Describes s) {event : Event} {answer : Answer} (ha : answer.succeeded = false)
    (hcontents : s'.state.contents = s.state.contents)
    (hopened : ∀ {name p}, s'.opened.get? name = some p → s.opened.get? name = some p) :
    (l.record (event, answer)).Describes s' := by
  rw [record, if_neg (by rw [ha]; decide)]
  exact ⟨hcontents ▸ h.contents, fun hname => h.accepted (hopened hname)⟩

/-- An event that succeeds leaves the ledger true, if the graph gains what is committed, and in every
transaction waits what it has accepted. -/
lemma of_succeeded (h : l.Describes s) {event : Event} {answer : Answer}
    (ha : answer.succeeded = true)
    (happly : s.state.contents.applyAll (l.commits event) = .ok s'.state.contents)
    (hopened : ∀ {name p}, s'.opened.get? name = some p → l.accepts event name = p) :
    (l.record (event, answer)).Describes s' := by
  rw [record, if_pos ha]
  refine ⟨?_, hopened⟩
  have hreplay : Contents.applyAll {} l.committed = .ok s.state.contents := h.contents
  rw [replay, Contents.applyAll_append, hreplay]
  exact happly

/-- An event that neither commits nor accepts anything leaves the ledger true, whatever its answer. -/
lemma of_unchanged (h : l.Describes s) (event : Event) (hcommits : l.commits event = [])
    (haccepts : l.accepts event = l.accepted) (hcontents : s'.state.contents = s.state.contents)
    (hopened : ∀ {name p}, s'.opened.get? name = some p → s.opened.get? name = some p)
    (answer : Answer) : (l.record (event, answer)).Describes s' := by
  cases ha : answer.succeeded with
  | false => exact h.of_failed ha hcontents hopened
  | true =>
    refine h.of_succeeded ha ?_ fun hname => ?_
    · rw [hcommits, hcontents]
      rfl
    · rw [haccepts]
      exact h.accepted (hopened hname)

/-- What is open after a transaction has ended was open before. -/
lemma get?_of_get?_erase {opened : Table Pending} {ended name : String} {p : Pending}
    (h : (opened.erase ended).get? name = some p) : opened.get? name = some p := by
  rw [Table.get?_erase] at h
  split_ifs at h
  exact h

/-- The end of a transaction that discards what it has accepted. -/
lemma record_discard (h : l.Describes s) (event : Event) (hcommits : l.commits event = [])
    (haccepts : l.accepts event = l.accepted) (name : String) {action : Pending → Action Memory Unit}
    (haction : ∀ p m, (action p m).2 = m) :
    (l.record (event, (s.finish name action).1)).Describes (s.finish name action).2 := by
  rw [Session.finish]
  cases s.opened.get? name with
  | none => exact h.of_unchanged event hcommits haccepts rfl id _
  | some p =>
    refine h.of_unchanged event hcommits haccepts ?_ get?_of_get?_erase _
    exact congrArg Memory.contents (haction p s.state)

/-- A commit. -/
lemma record_commit (h : l.Describes s) (now name : String) :
    (l.record (.step now (.commit name), (s.finish name Memory.store.commit).1)).Describes
      (s.finish name Memory.store.commit).2 := by
  rw [Session.finish]
  cases hopen : s.opened.get? name with
  | none => exact h.of_failed rfl rfl id
  | some p =>
    dsimp only
    rw [Session.act, Memory.store_commit, Memory.commit]
    cases happly : s.state.contents.applyAll p with
    | error f =>
      dsimp only
      exact h.of_failed rfl rfl get?_of_get?_erase
    | ok c =>
      dsimp only
      refine h.of_succeeded rfl ?_ fun hname => h.accepted (get?_of_get?_erase hname)
      rw [Ledger.commits, h.accepted hopen]
      exact happly

/-- A new transaction. -/
lemma record_start (h : l.Describes s) (now name : String) :
    (l.record (.step now (.start name), (s.perform Memory.store now (.start name)).1)).Describes
      (s.perform Memory.store now (.start name)).2 := by
  have hperform : s.perform Memory.store now (.start name) =
      (.done, ⟨s.state, s.opened.insert name []⟩) := by
    have hstart : Memory.store.start s.state = (.ok [], s.state) := rfl
    rw [Session.perform, hstart]
    cases s.opened.get? name <;> rfl
  rw [hperform]
  refine h.of_succeeded rfl rfl fun {other p} hother => ?_
  rw [Table.get?_insert] at hother
  rw [Ledger.accepts]
  split_ifs at hother ⊢
  · exact Option.some.inj hother
  · exact h.accepted hother

/-- A query outside any transaction. -/
lemma record_query (h : l.Describes s) (now : String) (mode : Mode) (q : Query) :
    (l.record (.step now (.query mode q none),
      (s.perform Memory.store now (.query mode q none)).1)).Describes
        (s.perform Memory.store now (.query mode q none)).2 := by
  rw [Session.perform]
  have hsend := Memory.send_direct_cases mode q s.state
  generalize q.send mode Memory.store.direct s.state = r at hsend ⊢
  rcases r with ⟨answer, m⟩
  rcases hsend with ⟨ha, happly⟩ | ⟨ha, hcontents⟩
  · exact h.of_succeeded ha happly h.accepted
  · exact h.of_failed ha hcontents id

/-- A query in a transaction.

**Proof sketch.** A query in a transaction that is not open fails.  In an open one it adds what it writes to what
the transaction has accepted, or fails without effect. -/
lemma record_query_within (h : l.Describes s) (now : String) (mode : Mode) (q : Query) (name : String) :
    (l.record (.step now (.query mode q (some name)),
      (s.perform Memory.store now (.query mode q (some name))).1)).Describes
        (s.perform Memory.store now (.query mode q (some name))).2 := by
  rw [Session.perform]
  cases hopen : s.opened.get? name with
  | none => exact h.of_failed rfl rfl id
  | some p =>
    have hsend := Memory.send_within_cases mode q s.state p
    dsimp only
    generalize q.send mode Memory.store.within (s.state, p) = r at hsend ⊢
    rcases r with ⟨answer, m, p'⟩
    dsimp only at hsend ⊢
    rcases hsend with ⟨ha, hstate⟩ | ⟨ha, hstate⟩
    · obtain ⟨rfl, rfl⟩ := Prod.mk.inj hstate
      refine h.of_succeeded ha rfl fun {other w} hother => ?_
      rw [Table.get?_insert] at hother
      rw [Ledger.accepts, h.accepted hopen]
      split_ifs at hother ⊢
      · exact Option.some.inj hother
      · exact h.accepted hother
    · obtain ⟨rfl, rfl⟩ := Prod.mk.inj hstate
      refine h.of_failed ha rfl fun {other w} hother => ?_
      rw [Table.get?_insert] at hother
      split_ifs at hother with hname
      · rw [hname, hopen]
        exact hother
      · exact hother

/-- A batch of a file. -/
lemma record_upsert (h : l.Describes s) (now path : String) (entities : List Embedded) :
    (l.record (.step now (.upsert path entities),
      (s.perform Memory.store now (.upsert path entities)).1)).Describes
        (s.perform Memory.store now (.upsert path entities)).2 := by
  rw [Session.perform, Session.act]
  have hcases := Repository.upsertBatch_cases Memory.store_buffered now path entities s.state
  generalize Repository.upsertBatch Memory.store now path entities s.state = r at hcases ⊢
  rcases r with ⟨result, m⟩
  dsimp only at hcases ⊢
  rcases hcases with ⟨rfl, hgraph⟩ | ⟨⟨f, rfl⟩, hgraph⟩
  · refine h.of_succeeded rfl ?_ h.accepted
    rw [Ledger.commits, Repository.applyAll_fileWrites, hgraph]
  · exact h.of_failed rfl hgraph id

/-- **One event keeps the ledger true.**

**Proof sketch.** By the kinds of events, each with its own lemma.  Those that only read, and those that make paths
fail, change neither the graph nor what waits. -/
theorem record (h : l.Describes s) (event : Event) :
    (l.record (event, (event.occur s).1)).Describes (event.occur s).2 := by
  cases event with
  | failWrites path =>
    refine h.of_unchanged (.failWrites path) rfl rfl ?_ ?_ _
    · rfl
    · exact id
  | step now action =>
    rw [Event.occur]
    cases action with
    | schema =>
      rw [Session.perform, Session.act, Repository.ensureSchema_store]
      exact h.of_succeeded rfl rfl h.accepted
    | upsert path entities => exact h.record_upsert now path entities
    | find uid =>
      have hsame := Repository.findEntity_store_snd uid s.state
      rw [Session.perform, Session.act]
      generalize Repository.findEntity Memory.store uid s.state = r at hsame ⊢
      obtain ⟨result, m⟩ := r
      obtain rfl : m = s.state := hsame
      exact h.of_unchanged (.step now (.find uid)) rfl rfl rfl id _
    | uids path =>
      rw [Session.perform, Session.act, Repository.entityUids_store]
      exact h.of_unchanged (.step now (.uids path)) rfl rfl rfl id _
    | stats =>
      rw [Session.perform, Session.act]
      rcases Repository.stats_store s.state with hstats | ⟨-, f, hstats⟩
      · rw [hstats]
        exact h.of_unchanged (.step now .stats) rfl rfl rfl id _
      · rw [hstats]
        exact h.of_unchanged (.step now .stats) rfl rfl rfl id _
    | start name => exact h.record_start now name
    | commit name => exact h.record_commit now name
    | rollback name => exact h.record_discard (.step now (.rollback name)) rfl rfl name fun _ _ => rfl
    | abandon name => exact h.record_discard (.step now (.abandon name)) rfl rfl name fun _ _ => rfl
    | query mode q within =>
      cases within with
      | none => exact h.record_query now mode q
      | some name => exact h.record_query_within now mode q name

end Describes

end Ledger

/-! ## Histories -/

/-- The ledger with one more event. -/
lemma ledger_append_singleton (observed : List (Event × Answer)) (o : Event × Answer) :
    ledger (observed ++ [o]) = (ledger observed).record o := by
  rw [ledger, List.foldl_append]
  rfl

/-- A history goes on from where it is. -/
lemma history_append (events later : List Event) :
    history (events ++ later) = later.foldl extend (history events) := by
  rw [history, List.foldl_append, history]

/-- **After every history the ledger is true.** -/
theorem describes_history (events : List Event) :
    (ledger (history events).1).Describes (history events).2 := by
  induction events using List.reverseRecOn with
  | nil => exact Ledger.Describes.empty
  | append_singleton events event ih =>
    rw [history_append, List.foldl_cons, List.foldl_nil, extend, ledger_append_singleton]
    exact ih.record event

/-- What is committed stays committed. -/
lemma committed_history (events later : List Event) :
    (ledger (history events).1).committed <+: (ledger (history (events ++ later)).1).committed := by
  induction later using List.reverseRecOn with
  | nil => exact (List.append_nil events).symm ▸ List.prefix_rfl
  | append_singleton later event ih =>
    rw [← List.append_assoc, history_append (events ++ later), List.foldl_cons, List.foldl_nil, extend,
      ledger_append_singleton]
    exact ih.trans (Ledger.committed_record _ _)

/-- An event that commits nothing leaves the graph alone. -/
lemma contents_occur (events : List Event) {event : Event}
    (h : (event.occur (history events).2).1.succeeded = false ∨
      (ledger (history events).1).commits event = []) :
    (event.occur (history events).2).2.state.contents = (history events).2.state.contents := by
  have hbefore := describes_history events
  have hafter := (hbefore.record event).contents
  rw [Ledger.committed_record_eq _ h, hbefore.contents] at hafter
  exact (Except.ok.inj hafter).symm

/-- What a graph with these writes answers to a query that reads. -/
lemma replayRead_of_read {q : Query} {statement : Statement} (hq : q.fault = none)
    (htext : Memory.recognize q.text = .ok statement) (hread : statement.isWrite = false) (mode : Mode)
    (writes : Pending) :
    replayRead mode q writes =
      .ofResult (.ofRows mode) ((replay writes).bind fun c => c.read statement q.params) := by
  rw [replayRead]
  cases replay writes with
  | error f => rfl
  | ok c => exact Memory.send_direct_of_read hq htext hread mode { contents := c }

/-- **The graph is what the committed writes make of the empty one**, whatever transactions are open and in
whatever order things happen.

Nothing that is committed is ever lost.  A step that fails leaves the graph as it was, and so do the start
of a transaction, its statements, its rollback, and letting it go.  A reader outside sees the committed
writes, and a reader in a transaction sees these and what this transaction has accepted.

**Proof sketch.** The ledger describes the session after every event, by induction on the history.  So the graph is
the replay of what the ledger has as committed, which only grows; an event that commits nothing leaves the graph as
it is; and reads are answered from the replay, in a transaction together with what it has accepted. -/
theorem contents_eq_replay_committed (events : List Event) :
    let s := (history events).2
    let l := ledger (history events).1
    replay l.committed = .ok s.state.contents ∧
    (∀ later, l.committed <+: (ledger (history (events ++ later)).1).committed) ∧
    (∀ event : Event, (event.occur s).1.succeeded = false →
      (event.occur s).2.state.contents = s.state.contents) ∧
    (∀ now name mode q,
      ∀ action ∈ [Step.start name, .rollback name, .abandon name, .query mode q (some name)],
        ((Event.step now action).occur s).2.state.contents = s.state.contents) ∧
    ∀ now mode q statement, q.fault = none → Memory.recognize q.text = .ok statement →
      statement.isWrite = false →
        ((Event.step now (.query mode q none)).occur s).1 = replayRead mode q l.committed ∧
        ∀ name, (s.opened.get? name).isSome →
          ((Event.step now (.query mode q (some name))).occur s).1 =
            replayRead mode q (l.committed ++ l.accepted name) := by
  intro s l
  have h : l.Describes s := describes_history events
  refine ⟨h.contents, committed_history events, ?_, ?_, ?_⟩
  · exact fun event hfailed => contents_occur events (Or.inl hfailed)
  · intro now name mode q action haction
    refine contents_occur events (Or.inr ?_)
    simp only [List.mem_cons, List.not_mem_nil, or_false] at haction
    rcases haction with rfl | rfl | rfl | rfl <;> rfl
  · intro now mode q statement hq htext hread
    have hreads := replayRead_of_read hq htext hread mode
    refine ⟨?_, fun name hopen => ?_⟩
    · rw [Event.occur, Session.perform, hreads, h.contents]
      exact Memory.send_direct_of_read hq htext hread mode s.state
    · obtain ⟨p, hp⟩ := Option.isSome_iff_exists.mp hopen
      have hreplay : Contents.applyAll {} l.committed = .ok s.state.contents := h.contents
      rw [Event.occur, Session.perform, hp, hreads, replay, Contents.applyAll_append, hreplay,
        h.accepted hp]
      exact Memory.send_within_of_read hq htext hread mode s.state p

end CodeAtlas.Graph
