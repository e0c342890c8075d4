import CodeAtlas.Proofs.Entity.Identity
import CodeAtlas.Proofs.Graph.Versions

/-!
# Deposits that are made at the same time

A deposit is made by one call of the store after the other: a new transaction, one statement for the file
and one for each entity, and a commit.  Between two calls of one deposit there may be any calls of another.

Two deposits for different files do not notice each other.  Until its commit a deposit only fills its own
transaction, and what the two commits store commutes, the dates included.  So every interleaving ends in
the same graph, which is that of making one deposit after the other.

## Main definitions

* `CodeAtlas.Graph.Stage` — how far a deposit has come.
* `CodeAtlas.Graph.Stage.step` — its next call.
* `CodeAtlas.Graph.Two` — two deposits on one store, and `CodeAtlas.Graph.Two.run` for a schedule.

## Main results

* `CodeAtlas.Graph.iterate_step_waiting` — the calls of a deposit, one after the other, are the deposit.
* `CodeAtlas.Graph.Memory.Contents.putBatch_comm` — batches of different files commute.
* `CodeAtlas.Graph.Stage.step_store` — what one call does to the graph in memory.
* `CodeAtlas.Graph.Two.Consistent.run` — what holds at every point of an interleaving.
* `CodeAtlas.Graph.interleaved_deposits` — all interleavings end in one state.
-/

namespace CodeAtlas.Graph

open Memory (Contents Pending)

variable {σ τ : Type}

/-! ## Call by call -/

/-- A deposit made by the repository. -/
def Deposit.make (d : Deposit) (store : Store σ τ) : Action σ Unit :=
  Repository.upsertBatch store d.now d.path d.entities

/-- How far a deposit has come. -/
inductive Stage (τ : Type) where
  /-- Nothing has been done. -/
  | waiting
  /-- In its transaction, with some queries still to be sent, and then the commit. -/
  | sending (t : τ) (rest : List Query)
  /-- A query has failed, and the rollback comes next. -/
  | refused (t : τ) (f : Failure)
  /-- All is done. -/
  | ended (result : Except Failure Unit)

namespace Stage

/-- **The next call** of a deposit, if there is one. -/
def step (store : Store σ τ) (d : Deposit) : Stage τ × σ → Stage τ × σ
  | (.waiting, s) =>
    match store.start s with
    | (.error f, s) => (.ended (.error (.write d.path f)), s)
    | (.ok t, s) => (.sending t (Repository.fileQueries d.path d.now d.entities), s)
  | (.sending t (q :: rest), s) =>
    match q.run store.within (s, t) with
    | (.error f, s, t) => (.refused t f, s)
    | (.ok (), s, t) => (.sending t rest, s)
  | (.sending t [], s) =>
    match store.commit t s with
    | (.ok (), s) => (.ended (.ok ()), s)
    | (.error f, s) => (.ended (.error (.write d.path f)), s)
  | (.refused t f, s) => (.ended (.error (.write d.path f)), (store.rollback t s).2)
  | (.ended result, s) => (.ended result, s)

/-- At most so many calls are left. -/
def remaining (d : Deposit) : Stage τ → Nat
  | .waiting => d.entities.length + 3
  | .sending _ rest => rest.length + 1
  | .refused _ _ => 1
  | .ended _ => 0

/-- A deposit with no call left has ended. -/
lemma exists_ended_of_remaining_eq_zero {d : Deposit} {stage : Stage τ} (h : stage.remaining d = 0) :
    ∃ result, stage = .ended result := by
  cases stage with
  | waiting => cases h
  | sending t rest => cases h
  | refused t f => cases h
  | ended result => exact ⟨result, rfl⟩

/-- After a call there is one less to come. -/
lemma remaining_step_le (store : Store σ τ) (d : Deposit) (x : Stage τ × σ) :
    (step store d x).1.remaining d ≤ x.1.remaining d - 1 := by
  obtain ⟨stage, s⟩ := x
  cases stage with
  | waiting =>
    rw [step]
    rcases store.start s with ⟨f | t, s⟩
    · exact Nat.zero_le _
    · simp [remaining, Repository.fileQueries]
  | sending t rest =>
    cases rest with
    | nil =>
      rw [step]
      rcases store.commit t s with ⟨f | _, s⟩
      · exact Nat.zero_le _
      · exact Nat.zero_le _
    | cons q rest =>
      rw [step]
      rcases q.run store.within (s, t) with ⟨f | _, s, t⟩
      · simp [remaining]
      · simp [remaining]
  | refused t f => exact Nat.zero_le _
  | ended result => exact Nat.zero_le _

/-- What is left of a deposit, done at once. -/
def finish (store : Store σ τ) (d : Deposit) : Stage τ × σ → Except Failure Unit × σ
  | (.waiting, s) => d.make store s
  | (.sending t rest, s) =>
    match Repository.runAll store.within rest (s, t) with
    | (.ok (), s, t) =>
      match store.commit t s with
      | (.ok (), s) => (.ok (), s)
      | (.error f, s) => (.error (.write d.path f), s)
    | (.error f, s, t) => (.error (.write d.path f), (store.rollback t s).2)
  | (.refused t f, s) => (.error (.write d.path f), (store.rollback t s).2)
  | (.ended result, s) => (result, s)

/-- **A call is the first of what is left.**

**Proof sketch.** By the stage.  What is left begins with the call that is made, so unfolding it once gives that
call and what is left after it. -/
theorem finish_step (store : Store σ τ) (d : Deposit) (x : Stage τ × σ) :
    finish store d (step store d x) = finish store d x := by
  obtain ⟨stage, s⟩ := x
  cases stage with
  | waiting =>
    rw [step, finish, Deposit.make, Repository.upsertBatch]
    rcases store.start s with ⟨f | t, s⟩
    · rfl
    · rfl
  | sending t rest =>
    cases rest with
    | nil =>
      rw [step, finish, Repository.runAll]
      dsimp only
      rcases store.commit t s with ⟨f | _, s⟩
      · rfl
      · rfl
    | cons q rest =>
      rw [step, finish, Repository.runAll_cons]
      rcases q.run store.within (s, t) with ⟨f | _, s, t⟩
      · rfl
      · rfl
  | refused t f => rfl
  | ended result => rfl

end Stage

open Stage in
/-- **The calls of a deposit, one after the other, are the deposit**, whatever the store answers.

**Proof sketch.** By induction on the calls, what would be left to do comes to the same result before and after
them, and each call leaves one less.  So after enough of them nothing is left, and what was to be done at the
beginning, which is the whole deposit, has been done. -/
theorem iterate_step_waiting (store : Store σ τ) (d : Deposit) (s : σ) {n : Nat}
    (hn : d.entities.length + 3 ≤ n) :
    (step store d)^[n] (.waiting, s) = (.ended (d.make store s).1, (d.make store s).2) := by
  have hfinish : ∀ (n : Nat) (x : Stage τ × σ),
      finish store d ((step store d)^[n] x) = finish store d x := by
    intro n
    induction n with
    | zero => exact fun x => rfl
    | succ n ih => exact fun x => (ih _).trans (finish_step store d x)
  have hremaining : ∀ (n : Nat) (x : Stage τ × σ),
      ((step store d)^[n] x).1.remaining d ≤ x.1.remaining d - n := by
    intro n
    induction n with
    | zero => exact fun x => Nat.le_refl _
    | succ n ih =>
      intro x
      have hstep := remaining_step_le store d x
      have hrest := ih (step store d x)
      rw [Function.iterate_succ_apply]
      omega
  have hall := hfinish n (.waiting, s)
  have hnone := hremaining n (.waiting, s)
  generalize (step store d)^[n] (.waiting, s) = x at hall hnone ⊢
  obtain ⟨stage, s'⟩ := x
  rw [remaining, Nat.sub_eq_zero_of_le hn] at hnone
  obtain ⟨result, rfl⟩ := exists_ended_of_remaining_eq_zero (Nat.le_zero.mp hnone)
  rw [finish, finish] at hall
  rw [← hall]

/-! ## Batches of different files -/

namespace Memory.Contents

variable {p q : String}

/-- A batch and another file may be stored in either order. -/
lemma putBatch_putFile_comm (h : p ≠ q) (c : Contents) (now : String) (entities : List Embedded)
    (date : Json) :
    (c.putBatch now p entities).putFile q date = (c.putFile q date).putBatch now p entities := by
  rw [putBatch, putBatch, ← putFile_comm h]
  refine (List.foldl_hom (fun c : Contents => c.putFile q date) ?_).symm
  intro c e
  exact (putEntity_putFile_comm h c _ _ _ _).symm

/-- A batch and an entity of another file may be stored in either order. -/
lemma putBatch_putEmbedded_comm (h : p ≠ q) (c : Contents) (now now' : String)
    (entities : List Embedded) (e : Embedded) :
    (c.putBatch now p entities).putEmbedded now' q e =
      (c.putEmbedded now' q e).putBatch now p entities := by
  have huid : ∀ e' : Embedded, e.1.uid q ≠ e'.1.uid p := fun e' heq => h (Entity.uid_inj heq).1.symm
  have hfile : (c.putEmbedded now' q e).putFile p (.str now) =
      (c.putFile p (.str now)).putEmbedded now' q e := putEntity_putFile_comm h.symm c _ _ _ _
  rw [putBatch, putBatch, hfile]
  refine (List.foldl_hom (fun c : Contents => c.putEmbedded now' q e) ?_).symm
  intro c e'
  exact putEntity_comm (huid e') c _ _ _ _

/-- **Batches of different files may be stored in either order**, whatever their dates. -/
theorem putBatch_comm (h : p ≠ q) (c : Contents) (now now' : String)
    (entities entities' : List Embedded) :
    (c.putBatch now p entities).putBatch now' q entities' =
      (c.putBatch now' q entities').putBatch now p entities := by
  have hfile := putBatch_putFile_comm h c now entities (.str now')
  rw [putBatch, hfile]
  refine List.foldl_hom (fun c : Contents => c.putBatch now p entities) ?_
  intro c e
  exact putBatch_putEmbedded_comm h c now now' entities e

end Memory.Contents

/-! ## One deposit on the graph in memory -/

namespace Stage

/-- A stage of a deposit to which nothing is refused: its transaction holds the statements that have been
sent, and the others are still to come. -/
def Smooth (d : Deposit) : Stage Pending → Prop
  | .waiting => True
  | .sending t rest =>
    ∃ left, Repository.fileWrites d.path d.now d.entities = t ++ left ∧ rest = left.map Query.ofWrite
  | .refused _ _ => False
  | .ended result => result = .ok ()

/-- With no call left, such a deposit has succeeded. -/
lemma Smooth.eq_ended {d : Deposit} {stage : Stage Pending} (h : stage.Smooth d)
    (hremaining : stage.remaining d = 0) : stage = .ended (.ok ()) := by
  obtain ⟨result, rfl⟩ := exists_ended_of_remaining_eq_zero hremaining
  exact congrArg Stage.ended h

/-- What a deposit has committed. -/
def made (d : Deposit) : Stage Pending → List Deposit
  | .ended (.ok ()) => [d]
  | _ => []

/-- A deposit commits all it has or nothing. -/
lemma made_cases (d : Deposit) (stage : Stage Pending) : stage.made d = [] ∨ stage.made d = [d] := by
  rcases stage with _ | _ | _ | ⟨f | _⟩
  · exact Or.inl rfl
  · exact Or.inl rfl
  · exact Or.inl rfl
  · exact Or.inl rfl
  · exact Or.inr rfl

/-- **What one call does to the graph in memory.**  Nothing is refused, and the graph changes by the commit
only, which stores the whole batch.

**Proof sketch.** By the stage.  The start opens a transaction in which nothing waits; a query is a write to a path
that does not fail, and is appended to what waits; and with no query left, all writes of the batch wait, so that the
commit stores it. -/
theorem step_store {m : Memory} {d : Deposit} (hpath : m.failing.contains d.path = false)
    {stage : Stage Pending} (h : stage.Smooth d) :
    ∃ next, next.Smooth d ∧
      ((step Memory.store d (stage, m) = (next, m) ∧ next.made d = stage.made d) ∨
        (step Memory.store d (stage, m) =
            (next, { m with contents := m.contents.putBatch d.now d.path d.entities }) ∧
          stage.made d = [] ∧ next.made d = [d])) := by
  cases stage with
  | waiting =>
    exact ⟨.sending [] (Repository.fileQueries d.path d.now d.entities),
      ⟨_, rfl, Repository.fileQueries_eq d.path d.now d.entities⟩, Or.inl ⟨rfl, rfl⟩⟩
  | sending t rest =>
    obtain ⟨left, hwrites, rfl⟩ := h
    cases left with
    | nil =>
      refine ⟨.ended (.ok ()), rfl, Or.inr ⟨?_, rfl, rfl⟩⟩
      rw [List.append_nil] at hwrites
      rw [List.map_nil, step, ← hwrites, Memory.store_commit, Memory.commit,
        Repository.applyAll_fileWrites]
    | cons w left =>
      have hw : w ∈ Repository.fileWrites d.path d.now d.entities := by
        rw [hwrites]
        exact List.mem_append_right t List.mem_cons_self
      have hrun := Repository.run_store_within hpath (Repository.isWrite_of_mem_fileWrites hw)
        (Repository.path_of_mem_fileWrites hw) t
      refine ⟨.sending (t ++ [w]) (left.map Query.ofWrite), ⟨left, ?_, rfl⟩, Or.inl ⟨?_, rfl⟩⟩
      · rw [hwrites, List.append_assoc, List.singleton_append]
      · rw [List.map_cons, step, hrun]
  | refused t f => exact absurd h id
  | ended result =>
    obtain rfl : result = .ok () := h
    exact ⟨.ended (.ok ()), rfl, Or.inl ⟨rfl, rfl⟩⟩

end Stage

/-! ## Two deposits -/

/-- Two deposits on one store, and how far they have come. -/
structure Two (σ τ : Type) where
  /-- How far the first has come. -/
  first : Stage τ
  /-- How far the second has come. -/
  second : Stage τ
  /-- The state of the store. -/
  state : σ

namespace Two

/-- The next call, of the first deposit or of the second. -/
def step (store : Store σ τ) (d e : Deposit) (x : Two σ τ) : Bool → Two σ τ
  | true =>
    let (stage, s) := Stage.step store d (x.first, x.state)
    ⟨stage, x.second, s⟩
  | false =>
    let (stage, s) := Stage.step store e (x.second, x.state)
    ⟨x.first, stage, s⟩

/-- Calls in the order of a schedule, which says at each point whether it is the turn of the first deposit.
A turn of a deposit that has ended is skipped. -/
def run (store : Store σ τ) (d e : Deposit) (x : Two σ τ) (schedule : List Bool) : Two σ τ :=
  schedule.foldl (step store d e) x

/-- Each turn leaves one call less.

**Proof sketch.** Induction on the schedule.  A turn of one side leaves one call less on that side and does not
touch the other. -/
lemma remaining_run_le (store : Store σ τ) (d e : Deposit) (x : Two σ τ) (schedule : List Bool) :
    (x.run store d e schedule).first.remaining d ≤ x.first.remaining d - schedule.count true ∧
      (x.run store d e schedule).second.remaining e ≤ x.second.remaining e - schedule.count false := by
  induction schedule generalizing x with
  | nil => exact ⟨Nat.le_refl _, Nat.le_refl _⟩
  | cons turn rest ih =>
    obtain ⟨hfirst, hsecond⟩ := ih (x.step store d e turn)
    rw [run, List.foldl_cons, ← run]
    cases turn with
    | true =>
      have hstep : (x.step store d e true).first.remaining d ≤ x.first.remaining d - 1 :=
        Stage.remaining_step_le store d (x.first, x.state)
      have hother : (x.step store d e true).second = x.second := rfl
      rw [hother] at hsecond
      rw [List.count_cons_self, List.count_cons_of_ne (by decide)]
      exact ⟨by omega, hsecond⟩
    | false =>
      have hstep : (x.step store d e false).second.remaining e ≤ x.second.remaining e - 1 :=
        Stage.remaining_step_le store e (x.second, x.state)
      have hother : (x.step store d e false).first = x.first := rfl
      rw [hother] at hfirst
      rw [List.count_cons_self, List.count_cons_of_ne (by decide)]
      exact ⟨hfirst, by omega⟩

/-- **What holds at every point of an interleaving on the graph in memory.**  Nothing has been refused, and
the graph holds what the two deposits have committed, as if the first had come first. -/
structure Consistent (m : Memory) (d e : Deposit) (x : Two Memory Pending) : Prop where
  /-- The first deposit goes smoothly. -/
  first : x.first.Smooth d
  /-- So does the second. -/
  second : x.second.Smooth e
  /-- What has been committed. -/
  state : x.state =
    { m with contents := m.contents.putDeposits (x.first.made d ++ x.second.made e) }

section Consistent

variable {m : Memory} {d e : Deposit} {x : Two Memory Pending}

/-- **Each call keeps this**, if the files are different and neither fails.

**Proof sketch.** A call changes the graph only if it is a commit, which adds the batch of its side.  If the other
side has committed before, the two batches are stored in the other order, which makes no difference for different
files. -/
theorem Consistent.step (h : Consistent m d e x) (hpaths : d.path ≠ e.path)
    (hd : m.failing.contains d.path = false) (he : m.failing.contains e.path = false) (turn : Bool) :
    Consistent m d e (x.step Memory.store d e turn) := by
  obtain ⟨first, second, s⟩ := x
  obtain ⟨hfirst, hsecond, hstate⟩ := h
  dsimp only at hfirst hsecond hstate
  have hfailing : s.failing = m.failing := by rw [hstate]
  rw [← hfailing] at hd he
  cases turn with
  | true =>
    obtain ⟨next, hnext, ⟨hstep, hmade⟩ | ⟨hstep, hbefore, hmade⟩⟩ := Stage.step_store hd hfirst
    · rw [Two.step, hstep]
      exact ⟨hnext, hsecond, by rw [hmade]; exact hstate⟩
    · rw [Two.step, hstep]
      refine ⟨hnext, hsecond, ?_⟩
      rw [hbefore] at hstate
      dsimp only
      rw [hmade, hstate]
      -- what the second has committed before is stored after this batch as well
      rcases second.made_cases e with hnone | hall
      · rw [hnone]
        rfl
      · rw [hall]
        exact congrArg (fun c => { m with contents := c })
          (Contents.putBatch_comm hpaths.symm m.contents e.now d.now e.entities d.entities)
  | false =>
    obtain ⟨next, hnext, ⟨hstep, hmade⟩ | ⟨hstep, hbefore, hmade⟩⟩ := Stage.step_store he hsecond
    · rw [Two.step, hstep]
      exact ⟨hfirst, hnext, by rw [hmade]; exact hstate⟩
    · rw [Two.step, hstep]
      refine ⟨hfirst, hnext, ?_⟩
      rw [hbefore, List.append_nil] at hstate
      dsimp only
      rw [hmade, hstate, Contents.putDeposits_append]
      rfl

/-- **So does every interleaving.** -/
theorem Consistent.run (h : Consistent m d e x) (hpaths : d.path ≠ e.path)
    (hd : m.failing.contains d.path = false) (he : m.failing.contains e.path = false)
    (schedule : List Bool) : Consistent m d e (x.run Memory.store d e schedule) := by
  induction schedule generalizing x with
  | nil => exact h
  | cons turn rest ih => exact ih (h.step hpaths hd he turn)

end Consistent

end Two

/-- Two deposits for paths that do not fail, one after the other. -/
lemma Deposit.make_make_store {m : Memory} {d e : Deposit} (hd : m.failing.contains d.path = false)
    (he : m.failing.contains e.path = false) :
    e.make Memory.store (d.make Memory.store m).2 =
      (.ok (), { m with contents := m.contents.putDeposits [d, e] }) := by
  have hfirst : d.make Memory.store m =
      (.ok (), { m with contents := m.contents.putBatch d.now d.path d.entities }) :=
    Repository.upsertBatch_store hd d.now d.entities
  rw [hfirst]
  exact Repository.upsertBatch_store
    (m := { m with contents := m.contents.putBatch d.now d.path d.entities }) he e.now e.entities

/-- **All interleavings of two deposits for different files end in one state.**  The calls of a deposit,
one after the other, are the deposit.  From any graph on which neither path fails, the calls of the two
deposits are made in any order that lets each of them come to its end.  Then both succeed, and the state is
the one that is left by making the first deposit and then the second, and by making the second and then the
first.

**Proof sketch.** The sides stay consistent at every turn, so nothing is refused, and each has enough turns to come
to its end.  Then both batches are in the graph, in an order that makes no difference; and this is what the deposits
leave one after the other. -/
theorem interleaved_deposits {m : Memory} {d e : Deposit} (hpaths : d.path ≠ e.path)
    (hd : m.failing.contains d.path = false) (he : m.failing.contains e.path = false)
    {schedule : List Bool} (hfirst : d.entities.length + 3 ≤ schedule.count true)
    (hsecond : e.entities.length + 3 ≤ schedule.count false) :
    let x := Two.run Memory.store d e ⟨.waiting, .waiting, m⟩ schedule
    (∀ c : Deposit, (Stage.step Memory.store c)^[c.entities.length + 3] (.waiting, m) =
      (.ended (c.make Memory.store m).1, (c.make Memory.store m).2)) ∧
      x.first = .ended (.ok ()) ∧ x.second = .ended (.ok ()) ∧
      e.make Memory.store (d.make Memory.store m).2 = (.ok (), x.state) ∧
      d.make Memory.store (e.make Memory.store m).2 = (.ok (), x.state) := by
  intro x
  have hstart : Two.Consistent m d e ⟨.waiting, .waiting, m⟩ := ⟨trivial, trivial, rfl⟩
  obtain ⟨hsmooth₁, hsmooth₂, hstate⟩ := hstart.run hpaths hd he schedule
  obtain ⟨hleft₁, hleft₂⟩ := Two.remaining_run_le Memory.store d e ⟨.waiting, .waiting, m⟩ schedule
  rw [Stage.remaining, Nat.sub_eq_zero_of_le hfirst] at hleft₁
  rw [Stage.remaining, Nat.sub_eq_zero_of_le hsecond] at hleft₂
  have hended₁ := hsmooth₁.eq_ended (Nat.le_zero.mp hleft₁)
  have hended₂ := hsmooth₂.eq_ended (Nat.le_zero.mp hleft₂)
  rw [hended₁, hended₂] at hstate
  have hx : x.state = { m with contents := m.contents.putDeposits [d, e] } := hstate
  refine ⟨fun c => iterate_step_waiting Memory.store c m (Nat.le_refl _), hended₁, hended₂, ?_, ?_⟩
  · rw [Deposit.make_make_store hd he, hx]
  · rw [Deposit.make_make_store he hd, hx]
    exact congrArg (fun c => (Except.ok (), { m with contents := c }))
      (Contents.putBatch_comm hpaths.symm m.contents e.now d.now e.entities d.entities)

/-- Two files by turns, one of them with the same entity twice, while a third path fails. -/
theorem interleaved_deposits_by_turns :
    let function : Entity := ⟨.function, "f", .python, 1, 2, "def f(): pass", ""⟩
    let m : Memory := { failing := ["c.py"] }
    let d : Deposit := ⟨"today", "a.py", [(function, []), (function, [])]⟩
    let e : Deposit := ⟨"tomorrow", "b.py", [(function, [])]⟩
    let schedule := [false, true, true, false, true, false, true, false, true]
    d.path ≠ e.path ∧ m.failing.contains d.path = false ∧ m.failing.contains e.path = false ∧
      d.entities.length + 3 ≤ schedule.count true ∧ e.entities.length + 3 ≤ schedule.count false ∧
      let x := Two.run Memory.store d e ⟨.waiting, .waiting, m⟩ schedule
      (∀ c : Deposit, (Stage.step Memory.store c)^[c.entities.length + 3] (.waiting, m) =
        (.ended (c.make Memory.store m).1, (c.make Memory.store m).2)) ∧
        x.first = .ended (.ok ()) ∧ x.second = .ended (.ok ()) ∧
        e.make Memory.store (d.make Memory.store m).2 = (.ok (), x.state) ∧
        d.make Memory.store (e.make Memory.store m).2 = (.ok (), x.state) := by
  intro function m d e schedule
  have hpaths : d.path ≠ e.path := by decide
  have hd : m.failing.contains d.path = false := by decide
  have he : m.failing.contains e.path = false := by decide
  have hfirst : d.entities.length + 3 ≤ schedule.count true := by decide
  have hsecond : e.entities.length + 3 ≤ schedule.count false := by decide
  exact ⟨hpaths, hd, he, hfirst, hsecond, interleaved_deposits hpaths hd he hfirst hsecond⟩

end CodeAtlas.Graph
