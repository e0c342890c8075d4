import CodeAtlas.Graph.Session
import CodeAtlas.Proofs.Graph.Statement

/-!
# Queries on the graph in memory

What the graph in memory does with a single statement, outside any transaction and inside one, and what
the sender of the query is told.

## Main definitions

* `CodeAtlas.Graph.Answer.succeeded` — the step did what it was asked for.
* `CodeAtlas.Graph.Memory.writesOf` — what a statement writes.

## Main results

* `CodeAtlas.Graph.Memory.execute_of_not_isWrite`, `CodeAtlas.Graph.Memory.executeIn_of_not_isWrite` —
  reading.
* `CodeAtlas.Graph.Memory.send_direct_cases` — outside a transaction a query applies its write or fails.
* `CodeAtlas.Graph.Memory.send_within_cases` — inside a transaction its write waits or is refused.
* `CodeAtlas.Graph.Memory.send_direct_of_read`, `CodeAtlas.Graph.Memory.send_within_of_read` — the answers
  to queries that read; a transaction reads its own writes.
-/

namespace CodeAtlas.Graph

open Memory (Contents Pending)

/-! ## Sending a query -/

/-- The answer to a query with these rows. -/
def Answer.ofRows : Mode → List Row → Answer
  | .run, _ => .done
  | .all, rs => .rows rs
  | .one, rs => .row rs.head?

/-- The step did what it was asked for. -/
def Answer.succeeded : Answer → Bool
  | .notOpen | .failed _ => false
  | _ => true

/-- Rows answer a query. -/
@[simp] lemma Answer.succeeded_ofRows (mode : Mode) (rows : List Row) :
    (ofRows mode rows).succeeded = true := by
  cases mode <;> rfl

namespace Query

variable {σ : Type} {e : Executor σ} {q : Query} {s s' : σ}

/-- Rows that are no failures are all there. -/
lemma collect_map_ok (rows : List Row) : collect (rows.map .ok) = .ok rows := by
  induction rows with
  | nil => rfl
  | cons r rest ih => rw [List.map_cons, collect, ih]

/-- A query without a fault is answered with all rows of its statement. -/
lemma fetchAll_of_execute {rows : List Row} (hq : q.fault = none)
    (h : e.execute q.text q.params s = (.ok (rows.map .ok), s')) : q.fetchAll e s = (.ok rows, s') := by
  rw [fetchAll, execute, hq]
  dsimp only
  rw [h]
  dsimp only
  rw [collect_map_ok]

/-- A query without a fault is answered with the first row of its statement. -/
lemma fetchOne_of_execute {rows : List Row} (hq : q.fault = none)
    (h : e.execute q.text q.params s = (.ok (rows.map .ok), s')) :
    q.fetchOne e s = (.ok rows.head?, s') := by
  rw [fetchOne, execute, hq]
  dsimp only
  rw [h]
  cases rows <;> rfl

/-- A query with a fault is not sent. -/
lemma send_of_fault {f : Failure} (hq : q.fault = some f) (mode : Mode) (e : Executor σ) (s : σ) :
    q.send mode e s = (.failed f, s) := by
  cases mode
  all_goals
    simp only [send, run, fetchAll, fetchOne, execute, hq, Answer.ofResult]

/-- A query is answered with the rows of its statement. -/
lemma send_of_ok {rows : List Row} (hq : q.fault = none)
    (hrun : e.run q.text q.params = Memory.discard (e.execute q.text q.params))
    (h : e.execute q.text q.params s = (.ok (rows.map .ok), s')) (mode : Mode) :
    q.send mode e s = (.ofRows mode rows, s') := by
  cases mode with
  | run => simp only [send, run, hq, hrun, Memory.discard, h, Answer.ofResult, Answer.ofRows]
  | all => simp only [send, fetchAll_of_execute hq h, Answer.ofResult, Answer.ofRows]
  | one => simp only [send, fetchOne_of_execute hq h, Answer.ofResult, Answer.ofRows]

/-- A query is answered with the failure of its statement. -/
lemma send_of_error {f : Failure} (hq : q.fault = none)
    (hrun : e.run q.text q.params = Memory.discard (e.execute q.text q.params))
    (h : e.execute q.text q.params s = (.error f, s')) (mode : Mode) :
    q.send mode e s = (.failed f, s') := by
  cases mode
  all_goals
    simp only [send, run, fetchAll, fetchOne, execute, hq, hrun, Memory.discard, h, Answer.ofResult]

end Query

namespace Memory

/-! ## The store, call by call -/

/-- A statement outside any transaction. -/
theorem store_direct_execute (text : String) (params : Params) :
    store.direct.execute text params = execute text params := by rw [store]

/-- A statement outside any transaction, without its rows. -/
theorem store_direct_run (text : String) (params : Params) :
    store.direct.run text params = discard (execute text params) := by rw [store]

/-- A statement in a transaction. -/
theorem store_within_execute (text : String) (params : Params) :
    store.within.execute text params = executeIn text params := by rw [store]

/-- A statement in a transaction, without its rows. -/
theorem store_within_run (text : String) (params : Params) :
    store.within.run text params = discard (executeIn text params) := by rw [store]

/-- Outside any transaction, a statement whose rows are not wanted is one whose rows are dropped. -/
lemma store_direct_discard (text : String) (params : Params) :
    store.direct.run text params = discard (store.direct.execute text params) := by
  rw [store_direct_run, store_direct_execute]

/-- The same in a transaction. -/
lemma store_within_discard (text : String) (params : Params) :
    store.within.run text params = discard (store.within.execute text params) := by
  rw [store_within_run, store_within_execute]

/-- The commit of a transaction. -/
theorem store_commit (p : Pending) : store.commit p = commit p := rfl

/-- Dropping the rows of an answer does not change what is done. -/
theorem discard_snd {σ : Type} (action : Action σ Rows) (s : σ) :
    (discard action s).2 = (action s).2 := by
  rw [discard]
  rcases action s with ⟨_ | _, s'⟩ <;> rfl

/-! ## Reading -/

/-- A statement that reads is answered from the contents. -/
theorem execute_of_not_isWrite {text : String} {statement : Statement}
    (htext : recognize text = .ok statement) (h : statement.isWrite = false) (params : Params)
    (m : Memory) :
    execute text params m = ((m.contents.read statement params).map (List.map .ok), m) := by
  rw [execute, htext]
  dsimp only
  rw [if_neg (by rw [h]; decide)]
  cases m.contents.read statement params <;> rfl

/-- In a transaction it is answered as if the writes that wait had been applied. -/
theorem executeIn_of_not_isWrite {text : String} {statement : Statement}
    (htext : recognize text = .ok statement) (h : statement.isWrite = false) (params : Params)
    (m : Memory) (p : Pending) :
    executeIn text params (m, p) =
      (((m.contents.applyAll p).bind fun c => c.read statement params).map (List.map .ok), m, p) := by
  rw [executeIn, htext]
  dsimp only
  rw [if_neg (by rw [h]; decide)]
  cases m.contents.applyAll p with
  | error f => rfl
  | ok c =>
    dsimp only [Except.bind]
    cases c.read statement params <;> rfl

/-! ## Single statements -/

/-- What a statement writes. -/
def writesOf (text : String) (params : Params) : Pending :=
  match recognize text with
  | .error _ => []
  | .ok statement => if statement.isWrite then [(statement, params)] else []

/-- A statement either does what it writes or fails without effect.

**Proof sketch.** By what the text is: no statement, which fails; a read, which writes nothing and leaves the
contents; or a write, whose path is checked before it is applied. -/
theorem execute_cases (text : String) (params : Params) (m : Memory) :
    (∃ f, execute text params m = (.error f, m)) ∨
      ∃ (rows : List Row) (c : Contents), m.contents.applyAll (writesOf text params) = .ok c ∧
        execute text params m = (.ok (rows.map .ok), { m with contents := c }) := by
  rw [writesOf]
  cases htext : recognize text with
  | error f => exact Or.inl ⟨f, by rw [execute, htext]⟩
  | ok statement =>
    cases hwrite : statement.isWrite with
    | false =>
      rw [execute_of_not_isWrite htext hwrite]
      cases m.contents.read statement params with
      | error f => exact Or.inl ⟨f, rfl⟩
      | ok rows => exact Or.inr ⟨rows, m.contents, by simp [hwrite, Contents.applyAll], rfl⟩
    | true =>
      simp only [execute, htext, hwrite, if_true, Contents.applyAll]
      cases m.checkPath text params with
      | error f => exact Or.inl ⟨f, rfl⟩
      | ok u =>
        cases m.contents.apply statement params with
        | error f => exact Or.inl ⟨f, rfl⟩
        | ok c => exact Or.inr ⟨[], c, rfl, rfl⟩

/-- In a transaction a statement adds what it writes to what waits, or fails without effect. -/
theorem executeIn_cases (text : String) (params : Params) (m : Memory) (p : Pending) :
    (∃ f, executeIn text params (m, p) = (.error f, m, p)) ∨
      ∃ rows : List Row,
        executeIn text params (m, p) = (.ok (rows.map .ok), m, p ++ writesOf text params) := by
  rw [writesOf]
  cases htext : recognize text with
  | error f => exact Or.inl ⟨f, by rw [executeIn, htext]⟩
  | ok statement =>
    cases hwrite : statement.isWrite with
    | false =>
      rw [executeIn_of_not_isWrite htext hwrite]
      cases (m.contents.applyAll p).bind fun c => c.read statement params with
      | error f => exact Or.inl ⟨f, rfl⟩
      | ok rows => exact Or.inr ⟨rows, by simp [hwrite, Except.map]⟩
    | true =>
      simp only [executeIn, htext, hwrite, if_true]
      cases m.checkPath text params with
      | error f => exact Or.inl ⟨f, rfl⟩
      | ok u => exact Or.inr ⟨[], rfl⟩

/-! ## Whole queries -/

/-- **Outside a transaction a query either does what it writes or fails without effect.**

**Proof sketch.** A query that could not be built is not sent.  Otherwise its text is executed, and whichever way
its rows are asked for, the query succeeds if that did. -/
theorem send_direct_cases (mode : Mode) (q : Query) (m : Memory) :
    ((q.send mode store.direct m).1.succeeded = true ∧
        m.contents.applyAll (writesOf q.text q.params) =
          .ok (q.send mode store.direct m).2.contents) ∨
      ((q.send mode store.direct m).1.succeeded = false ∧
        (q.send mode store.direct m).2.contents = m.contents) := by
  have hrun := store_direct_discard q.text q.params
  have hcases := execute_cases q.text q.params m
  rw [← store_direct_execute] at hcases
  cases hq : q.fault with
  | some f =>
    rw [Query.send_of_fault hq]
    exact Or.inr ⟨rfl, rfl⟩
  | none =>
    rcases hcases with ⟨f, hexecute⟩ | ⟨rows, c, happly, hexecute⟩
    · rw [Query.send_of_error hq hrun hexecute]
      exact Or.inr ⟨rfl, rfl⟩
    · rw [Query.send_of_ok hq hrun hexecute]
      exact Or.inl ⟨Answer.succeeded_ofRows mode rows, happly⟩

/-- **Inside a transaction a query adds what it writes to what waits, or fails without effect.** -/
theorem send_within_cases (mode : Mode) (q : Query) (m : Memory) (p : Pending) :
    ((q.send mode store.within (m, p)).1.succeeded = true ∧
        (q.send mode store.within (m, p)).2 = (m, p ++ writesOf q.text q.params)) ∨
      ((q.send mode store.within (m, p)).1.succeeded = false ∧
        (q.send mode store.within (m, p)).2 = (m, p)) := by
  have hrun := store_within_discard q.text q.params
  have hcases := executeIn_cases q.text q.params m p
  rw [← store_within_execute] at hcases
  cases hq : q.fault with
  | some f =>
    rw [Query.send_of_fault hq]
    exact Or.inr ⟨rfl, rfl⟩
  | none =>
    rcases hcases with ⟨f, hexecute⟩ | ⟨rows, hexecute⟩
    · rw [Query.send_of_error hq hrun hexecute]
      exact Or.inr ⟨rfl, rfl⟩
    · rw [Query.send_of_ok hq hrun hexecute]
      exact Or.inl ⟨Answer.succeeded_ofRows mode rows, rfl⟩

/-- A query that reads is answered from the contents. -/
theorem send_direct_of_read {q : Query} {statement : Statement} (hq : q.fault = none)
    (htext : recognize q.text = .ok statement) (hread : statement.isWrite = false) (mode : Mode)
    (m : Memory) :
    (q.send mode store.direct m).1 =
      .ofResult (.ofRows mode) (m.contents.read statement q.params) := by
  have hexecute := execute_of_not_isWrite htext hread q.params m
  rw [← store_direct_execute] at hexecute
  cases hrows : m.contents.read statement q.params with
  | error f =>
    rw [hrows] at hexecute
    rw [Query.send_of_error hq (store_direct_discard _ _) hexecute]
    rfl
  | ok rows =>
    rw [hrows] at hexecute
    rw [Query.send_of_ok hq (store_direct_discard _ _) hexecute]
    rfl

/-- In a transaction it is answered as if the writes that wait had been applied.

**Proof sketch.** In a transaction a read first applies what waits, and fails if that fails; so its rows are those
of the contents that the writes would leave. -/
theorem send_within_of_read {q : Query} {statement : Statement} (hq : q.fault = none)
    (htext : recognize q.text = .ok statement) (hread : statement.isWrite = false) (mode : Mode)
    (m : Memory) (p : Pending) :
    (q.send mode store.within (m, p)).1 =
      .ofResult (.ofRows mode) ((m.contents.applyAll p).bind fun c => c.read statement q.params) := by
  have hexecute := executeIn_of_not_isWrite htext hread q.params m p
  rw [← store_within_execute] at hexecute
  cases hrows : (m.contents.applyAll p).bind fun c => c.read statement q.params with
  | error f =>
    rw [hrows] at hexecute
    rw [Query.send_of_error hq (store_within_discard _ _) hexecute]
    rfl
  | ok rows =>
    rw [hrows] at hexecute
    rw [Query.send_of_ok hq (store_within_discard _ _) hexecute]
    rfl

end Memory

end CodeAtlas.Graph
