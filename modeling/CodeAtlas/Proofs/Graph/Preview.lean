import CodeAtlas.Proofs.Graph.Change
import CodeAtlas.Proofs.Graph.Replay

/-!
# A transaction foresees its commit

A read in a transaction is answered as if the writes that wait had been applied, and the commit applies
them later, to whatever the graph holds then.  The two agree.  A read sees what the commit would leave, and
where the commit would fail every count fails for the same reason.  Which of the two happens is decided by
the writes that wait, and by nothing that others do in between.

## Main definitions

* `CodeAtlas.Graph.Query.Reads`, `CodeAtlas.Graph.Query.Counts` — queries that do not write, and queries that
  count.
* `CodeAtlas.Graph.Event.transaction?` — the transaction with which an event has to do.

## Main results

* `CodeAtlas.Graph.Event.occur_commit` — what a commit answers and leaves, told from the writes that wait.
* `CodeAtlas.Graph.Memory.send_within_eq_send_direct` — a read sees what the commit would leave.
* `CodeAtlas.Graph.opened_history_append` — others do not touch what waits.
* `CodeAtlas.Graph.reads_foresee_commit` — reads and the commit of a transaction agree.
-/

namespace CodeAtlas.Graph

open Memory (Contents Pending Change WellFormed meaning makeAll)

/-! ## Reads and counts -/

/-- The query does not write: its text is that of a statement that reads, or of none at all. -/
def Query.Reads (q : Query) : Prop :=
  ∀ statement, Memory.recognize q.text = .ok statement → statement.isWrite = false

/-- The statements that count. -/
def Statement.counts : List Statement := [.countFiles, .countEntities, .countContains, .countViolations]

/-- The query is sent and counts. -/
def Query.Counts (q : Query) : Prop :=
  q.fault = none ∧ ∃ statement ∈ Statement.counts, Memory.recognize q.text = .ok statement

namespace Memory

/-- Counting cannot fail. -/
lemma Contents.exists_read_of_mem_counts {statement : Statement} (h : statement ∈ Statement.counts)
    (c : Contents) (params : Params) : ∃ rows, c.read statement params = .ok rows := by
  simp only [Statement.counts, List.mem_cons, List.not_mem_nil, or_false] at h
  rcases h with rfl | rfl | rfl | rfl <;> exact ⟨_, rfl⟩

/-- Statements that count do not write. -/
lemma isWrite_of_mem_counts {statement : Statement} (h : statement ∈ Statement.counts) :
    statement.isWrite = false := by
  simp only [Statement.counts, List.mem_cons, List.not_mem_nil, or_false] at h
  rcases h with rfl | rfl | rfl | rfl <;> rfl

/-- **A read in a transaction sees what the commit would leave.**

**Proof sketch.** A query that could not be built and a text that is no statement fail alike inside and outside.  A
read is answered from the contents, which inside are those that the waiting writes would leave. -/
theorem send_within_eq_send_direct {q : Query} (hq : q.Reads) {m : Memory} {p : Pending} {c : Contents}
    (h : m.contents.applyAll p = .ok c) (mode : Mode) :
    (q.send mode store.within (m, p)).1 = (q.send mode store.direct { m with contents := c }).1 := by
  cases hfault : q.fault with
  | some f => rw [Query.send_of_fault hfault, Query.send_of_fault hfault]
  | none =>
    cases htext : recognize q.text with
    | error f =>
      -- a text that is no statement is refused alike inside and outside
      have hwithin : store.within.execute q.text q.params (m, p) = (.error f, m, p) := by
        rw [store_within_execute, executeIn, htext]
      have hdirect : store.direct.execute q.text q.params { m with contents := c } =
          (.error f, { m with contents := c }) := by
        rw [store_direct_execute, execute, htext]
      rw [Query.send_of_error hfault (store_within_discard _ _) hwithin,
        Query.send_of_error hfault (store_direct_discard _ _) hdirect]
    | ok statement =>
      have hread := hq statement htext
      rw [send_within_of_read hfault htext hread, send_direct_of_read hfault htext hread, h]
      rfl

/-- **A count in a transaction fails if and only if the writes that wait cannot be applied**, and for the same
reason. -/
theorem send_within_eq_failed_iff {q : Query} (hq : q.Counts) (mode : Mode) (m : Memory) (p : Pending)
    (f : Failure) :
    (q.send mode store.within (m, p)).1 = .failed f ↔ p.mapM meaning = .error f := by
  obtain ⟨hfault, statement, hcount, htext⟩ := hq
  rw [send_within_of_read hfault htext (isWrite_of_mem_counts hcount), Contents.applyAll_eq]
  cases hp : p.mapM meaning with
  | error g => simp [Except.map, Except.bind, Answer.ofResult]
  | ok changes =>
    obtain ⟨rows, hrows⟩ :=
      Contents.exists_read_of_mem_counts hcount (makeAll changes m.contents) q.params
    cases mode <;> simp [Except.map, Except.bind, hrows, Answer.ofResult, Answer.ofRows]

end Memory

/-! ## The commit -/

namespace Event

variable {s : Session Memory Pending} {name : String} {p : Pending}

/-- What a query in an open transaction answers. -/
lemma occur_query_within (hopen : s.opened.get? name = some p) (now : String) (mode : Mode) (q : Query) :
    ((Event.step now (.query mode q (some name))).occur s).1 =
      (q.send mode Memory.store.within (s.state, p)).1 := by
  simp only [Event.occur, Session.perform, hopen]

/-- **What the commit of an open transaction answers and leaves.**  The answer is told from the writes that
wait, without a look at the graph. -/
theorem occur_commit (hopen : s.opened.get? name = some p) (now : String) :
    (Event.step now (.commit name)).occur s =
      match p.mapM meaning with
      | .error f => (.failed f, { s with opened := s.opened.erase name })
      | .ok changes =>
        (.done, ⟨{ s.state with contents := makeAll changes s.state.contents }, s.opened.erase name⟩) := by
  simp only [Event.occur, Session.perform, Session.finish, hopen, Session.act, Memory.store_commit,
    Memory.commit, Contents.applyAll_eq]
  cases p.mapM meaning <;> rfl

/-- The commit succeeds if and only if all that waits is well formed. -/
lemma occur_commit_eq_done_iff (hopen : s.opened.get? name = some p) (now : String) :
    ((Event.step now (.commit name)).occur s).1 = .done ↔ ∀ w ∈ p, WellFormed w := by
  rw [occur_commit hopen, ← Memory.exists_meanings_iff]
  cases p.mapM meaning <;> simp

/-- The commit fails if and only if the writes that wait are refused. -/
lemma occur_commit_eq_failed_iff (hopen : s.opened.get? name = some p) (now : String) (f : Failure) :
    ((Event.step now (.commit name)).occur s).1 = .failed f ↔ p.mapM meaning = .error f := by
  rw [occur_commit hopen]
  cases p.mapM meaning <;> simp

/-! ## What others do -/

/-- The transaction that an event starts, ends, or sends a query in. -/
def transaction? : Event → Option String
  | .step _ (.start name) | .step _ (.commit name) | .step _ (.rollback name)
  | .step _ (.abandon name) => some name
  | .step _ (.query _ _ within) => within
  | _ => none

/-- An action on the graph leaves the transactions alone. -/
lemma opened_act {α : Type} (action : Action Memory α) (answer : α → Answer)
    (s : Session Memory Pending) : (s.act action answer).2.opened = s.opened := by
  unfold Session.act
  rcases action s.state with ⟨result, state⟩
  rfl

/-- The end of another transaction. -/
lemma get?_opened_finish {other : String} (h : name ≠ other) (action : Pending → Action Memory Unit)
    (s : Session Memory Pending) : (s.finish other action).2.opened.get? name = s.opened.get? name := by
  unfold Session.finish
  split
  · rfl
  · rw [opened_act, Table.get?_erase, if_neg h]

/-- **An event that has to do with another transaction, or with none, does not touch what waits.**

**Proof sketch.** By the kinds of events.  Only the start, the end and the queries of a transaction touch what
waits, each under the name of its own transaction. -/
theorem get?_opened_occur {event : Event} (h : event.transaction? ≠ some name)
    (s : Session Memory Pending) : (event.occur s).2.opened.get? name = s.opened.get? name := by
  cases event with
  | failWrites path => rfl
  | step now action =>
    cases action with
    | start other =>
      have hother : name ≠ other := fun heq => h (congrArg some heq.symm)
      have hstart : Memory.store.start s.state = (.ok [], s.state) := rfl
      simp only [occur, Session.perform, hstart, Table.get?_insert, if_neg hother]
    | commit other | rollback other | abandon other =>
      have hother : name ≠ other := fun heq => h (congrArg some heq.symm)
      simp only [occur, Session.perform, get?_opened_finish hother]
    | query mode q within =>
      cases within with
      | none => simp only [occur, Session.perform]
      | some other =>
        have hother : name ≠ other := fun heq => h (congrArg some heq.symm)
        simp only [occur, Session.perform]
        split
        · rfl
        · simp only [Table.get?_insert, if_neg hother]
    | _ => simp only [occur, Session.perform, opened_act]

end Event

/-- **Others do not touch what waits in a transaction.** -/
theorem opened_history_append {name : String} {p : Pending} (events : List Event)
    (hopen : (history events).2.opened.get? name = some p) (others : List Event)
    (h : ∀ e ∈ others, e.transaction? ≠ some name) :
    (history (events ++ others)).2.opened.get? name = some p := by
  induction others using List.reverseRecOn with
  | nil => simpa using hopen
  | append_singleton others event ih =>
    rw [← List.append_assoc, history_append (events ++ others), List.foldl_cons, List.foldl_nil, extend,
      Event.get?_opened_occur (h event (by simp))]
    exact ih fun e he => h e (List.mem_append_left _ he)

/-! ## Reads and commit agree -/

/-- **Reads in a transaction foresee its commit.**  After any history, let a transaction be open, and let
`commit` be its commit at some moment.

The commit succeeds if and only if the writes that wait are well formed.  Then a read in the transaction is
answered exactly as the same read on the graph right after the commit.  Otherwise the commit fails, as any
count in the transaction fails, and changes nothing but that the transaction is over.  Nothing that others do
in between changes this outcome; it is the same for all transactions in which the same writes wait.

**Proof sketch.** What a commit answers is decided by the meanings of the writes that wait: it succeeds if all of
them have one, and fails as the first that has none.  A read in the transaction applies the same writes and so fails
in the same way, or sees the same graph.  Events of other transactions leave these writes as they are. -/
theorem reads_foresee_commit (events : List Event) {name : String} {p : Pending}
    (hopen : (history events).2.opened.get? name = some p) (now : String) :
    let s := (history events).2
    let commit := (Event.step now (.commit name)).occur
    ((commit s).1 = .done ↔ ∀ w ∈ p, WellFormed w) ∧
    ((∀ w ∈ p, WellFormed w) → ∀ mode (q : Query), q.Reads →
      ((Event.step now (.query mode q (some name))).occur s).1 =
        ((Event.step now (.query mode q none)).occur (commit s).2).1) ∧
    (∀ mode (q : Query), q.Counts → ∀ f, (commit s).1 = .failed f ↔
      ((Event.step now (.query mode q (some name))).occur s).1 = .failed f) ∧
    ((commit s).1 ≠ .done → (commit s).2 = { s with opened := s.opened.erase name }) ∧
    (∀ others : List Event, (∀ e ∈ others, e.transaction? ≠ some name) →
      (commit (history (events ++ others)).2).1 = (commit s).1) ∧
    ∀ elsewhere other, (history elsewhere).2.opened.get? other = some p →
      ((Event.step now (.commit other)).occur (history elsewhere).2).1 = (commit s).1 := by
  intro s commit
  have hs : s.opened.get? name = some p := hopen
  -- the answer of a commit is a function of what waits
  have hanswer : ∀ elsewhere other, (history elsewhere).2.opened.get? other = some p →
      ((Event.step now (.commit other)).occur (history elsewhere).2).1 = (commit s).1 := by
    intro elsewhere other hother
    simp only [commit, Event.occur_commit hother, Event.occur_commit hs]
    cases p.mapM meaning <;> rfl
  refine ⟨Event.occur_commit_eq_done_iff hs now, ?_, ?_, ?_, ?_, hanswer⟩
  · intro hwell mode q hq
    obtain ⟨changes, hchanges⟩ := (Memory.exists_meanings_iff p).mpr hwell
    have happly : s.state.contents.applyAll p = .ok (makeAll changes s.state.contents) := by
      rw [Contents.applyAll_eq, hchanges]
      rfl
    rw [Event.occur_query_within hs, Memory.send_within_eq_send_direct hq happly]
    simp only [commit, Event.occur_commit hs, hchanges]
    rfl
  · intro mode q hq f
    rw [Event.occur_query_within hs, Memory.send_within_eq_failed_iff hq]
    exact Event.occur_commit_eq_failed_iff hs now f
  · intro hfailed
    simp only [commit, Event.occur_commit hs] at hfailed ⊢
    cases hp : p.mapM meaning with
    | error f => rfl
    | ok changes => simp [hp] at hfailed
  · intro others hothers
    exact hanswer _ name (opened_history_append events hopen others hothers)

/-- Writes sent in a transaction wait in order, if their path does not fail.

**Proof sketch.** Induction on the writes: one that does not fail is accepted, and waits behind those before it. -/
lemma opened_history_writes {name path : String} {p : Pending} (events : List Event)
    (hopen : (history events).2.opened.get? name = some p)
    (hfailing : (history events).2.state.failing.contains path = false) (now : String) (writes : Pending)
    (hwrites : ∀ w ∈ writes, w.1.isWrite = true ∧ w.2.get? "path" = some (.str path)) :
    (history (events ++
      writes.map fun w => .step now (.query .run (Query.ofWrite w) (some name)))).2.opened.get? name =
        some (p ++ writes) := by
  suffices h : ∀ s : Session Memory Pending, s.opened.get? name = some p →
      s.state.failing.contains path = false → ∀ answers,
        ((writes.map fun w => Event.step now (.query .run (Query.ofWrite w) (some name))).foldl extend
          (answers, s)).2.opened.get? name = some (p ++ writes) by
    rw [history_append]
    exact h _ hopen hfailing _
  clear hopen hfailing
  induction writes generalizing p with
  | nil =>
    intro s hs _ _
    simpa using hs
  | cons w rest ih =>
    intro s hs hfails answers
    obtain ⟨hwrite, hpath⟩ := hwrites w List.mem_cons_self
    have hoccur : (Event.step now (.query .run (Query.ofWrite w) (some name))).occur s =
        (.done, { s with opened := s.opened.insert name (p ++ [w]) }) := by
      simp only [Event.occur, Session.perform, hs, Query.send,
        Repository.run_store_within hfails hwrite hpath, Answer.ofResult]
    have hnext := ih (p := p ++ [w]) (fun w' hw' => hwrites w' (List.mem_cons_of_mem _ hw'))
      { s with opened := s.opened.insert name (p ++ [w]) } (Table.get?_insert_self _ _ _) hfails
    rw [List.map_cons, List.foldl_cons, extend, hoccur]
    simpa using hnext _

/-- The writes of a file and of an entity without an identity. -/
def halfWrites : Pending :=
  [(.upsertFile, [("now", .null), ("path", .str "a.py")]), (.upsertEntity, [("path", .str "a.py")])]

/-- A transaction in which these writes wait. -/
def halfDone : List Event :=
  [.step "now" (.start "t")] ++
    halfWrites.map fun w => .step "now" (.query .run (Query.ofWrite w) (some "t"))

/-- A transaction whose commit will fail, whatever others do before it. -/
theorem reads_foresee_commit_without_identity :
    (history halfDone).2.opened.get? "t" = some halfWrites ∧
    let commit := (Event.step "now" (.commit "t")).occur
    ((commit (history halfDone).2).1 = .done ↔ ∀ w ∈ halfWrites, WellFormed w) ∧
    ∀ others : List Event, (∀ e ∈ others, e.transaction? ≠ some "t") →
      (commit (history (halfDone ++ others)).2).1 = (commit (history halfDone).2).1 := by
  have hopen : (history halfDone).2.opened.get? "t" = some halfWrites := by
    have hstart : (history [.step "now" (.start "t")]).2 = { state := {}, opened := [("t", [])] } := rfl
    have hnone : (history [.step "now" (.start "t")]).2.state.failing.contains "a.py" = false := by
      rw [hstart]
      rfl
    refine opened_history_writes (p := []) _ (by rw [hstart]; rfl) hnone "now" halfWrites ?_
    intro w hw
    simp only [halfWrites, List.mem_cons, List.not_mem_nil, or_false] at hw
    rcases hw with rfl | rfl <;> exact ⟨rfl, rfl⟩
  exact ⟨hopen, (reads_foresee_commit halfDone hopen "now").1,
    (reads_foresee_commit halfDone hopen "now").2.2.2.2.1⟩

end CodeAtlas.Graph
