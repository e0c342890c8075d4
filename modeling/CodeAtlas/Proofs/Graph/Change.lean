import CodeAtlas.Proofs.Graph.Contents

/-!
# Writes as changes of the graph

A statement that writes is first read and then carried out.  Reading it looks at its parameters only: it
either tells the change that is meant or says why the parameters are refused.  Carrying the change out
cannot fail.  So whether a write succeeds, and how it fails, does not depend on the graph.

## Main definitions

* `CodeAtlas.Graph.Memory.Change` — what a write means to do, and `Change.make`, the graph after it.
* `CodeAtlas.Graph.Memory.meaning` — the change that a write means, or why it is refused.
* `CodeAtlas.Graph.Memory.WellFormed` — the parameters that a write needs are there.

## Main results

* `CodeAtlas.Graph.Memory.Contents.apply_eq`, `CodeAtlas.Graph.Memory.Contents.applyAll_eq` — writes are
  applied by making the changes that they mean.
* `CodeAtlas.Graph.Memory.exists_meaning_iff`, `CodeAtlas.Graph.Memory.exists_meanings_iff` — writes are read
  if and only if they are well formed.
-/

namespace CodeAtlas.Graph.Memory

/-! ## Changes -/

/-- What a write means to do. -/
inductive Change where
  /-- Nothing. -/
  | nothing
  /-- A file is stored, and dated if it is new. -/
  | file (path : String) (now : Json)
  /-- An entity of a file is stored, and dated if it is new. -/
  | entity (path uid : String) (now : Json) (props : Table Json)

/-- The graph after a change. -/
def Change.make : Change → Contents → Contents
  | .nothing, c => c
  | .file path now, c => c.putFile path now
  | .entity path uid now props, c => c.putEntity path uid now props

/-- The graph after some changes, in order. -/
def makeAll (changes : List Change) (c : Contents) : Contents :=
  changes.foldl (fun c change => change.make c) c

/-- The change that a write means, or why its parameters are refused. -/
def meaning (w : Statement × Params) : Except Failure Change :=
  match w.1 with
  | .uniqueFiles | .uniqueEntities => .ok .nothing
  | .upsertFile => do
    let path ← textParam w.2 "path"
    let now ← valueParam w.2 "now"
    return .file path now
  | .upsertEntity => do
    let path ← textParam w.2 "path"
    let uid ← textParam w.2 "uid"
    let now ← valueParam w.2 "now"
    let props ← tableParam w.2 "props"
    return .entity path uid now props
  | statement => .error (.internal s!"{statement.name} is not a write")

/-- What every change keeps, any number of changes keep. -/
lemma makeAll_induction {P : Contents → Prop} (hmake : ∀ change c, P c → P (Change.make change c))
    (changes : List Change) {c : Contents} (h : P c) : P (makeAll changes c) := by
  induction changes generalizing c with
  | nil => exact h
  | cons first rest ih => exact ih (hmake first c h)

/-! ## Applying is reading and making -/

/-- **A write is applied by making the change that it means.** -/
theorem Contents.apply_eq (c : Contents) (w : Statement × Params) :
    c.apply w.1 w.2 = (meaning w).map fun change => change.make c := by
  obtain ⟨statement, params⟩ := w
  cases statement with
  | upsertFile =>
    simp only [Contents.apply, meaning]
    cases textParam params "path" <;> cases valueParam params "now" <;> rfl
  | upsertEntity =>
    simp only [Contents.apply, meaning]
    cases textParam params "path" <;> cases textParam params "uid" <;>
      cases valueParam params "now" <;> cases tableParam params "props" <;> rfl
  | _ => rfl

/-- **Writes are applied by making the changes that they mean.** -/
theorem Contents.applyAll_eq (c : Contents) (writes : Pending) :
    c.applyAll writes = (writes.mapM meaning).map fun changes => makeAll changes c := by
  induction writes generalizing c with
  | nil => rfl
  | cons w rest ih =>
    simp only [Contents.applyAll, Contents.apply_eq, List.mapM_cons]
    cases meaning w with
    | error f => rfl
    | ok first =>
      simp only [Except.map, ih]
      cases rest.mapM meaning <;> rfl

/-! ## Well-formed writes -/

/-- The parameters that a write needs are there and of the right kind. -/
def WellFormed (w : Statement × Params) : Prop :=
  match w.1 with
  | .uniqueFiles | .uniqueEntities => True
  | .upsertFile =>
    (∃ path, w.2.get? "path" = some (.str path)) ∧ ∃ now, w.2.get? "now" = some now
  | .upsertEntity =>
    (∃ path, w.2.get? "path" = some (.str path)) ∧ (∃ uid, w.2.get? "uid" = some (.str uid)) ∧
      (∃ now, w.2.get? "now" = some now) ∧ ∃ props, w.2.get? "props" = some (.obj props)
  | _ => False

/-- A text is read from a parameter if and only if the parameter is a text. -/
lemma textParam_eq_ok_iff {params : Params} {name value : String} :
    textParam params name = .ok value ↔ params.get? name = some (.str value) := by
  unfold textParam
  split <;> simp_all

/-- A value is read from a parameter if and only if the parameter is there. -/
lemma valueParam_eq_ok_iff {params : Params} {name : String} {value : Json} :
    valueParam params name = .ok value ↔ params.get? name = some value := by
  unfold valueParam
  split <;> simp_all

/-- A table is read from a parameter if and only if the parameter is a table. -/
lemma tableParam_eq_ok_iff {params : Params} {name : String} {value : Table Json} :
    tableParam params name = .ok value ↔ params.get? name = some (.obj value) := by
  unfold tableParam
  split <;> simp_all

/-- What follows a reading is reached if and only if the reading succeeds. -/
lemma exists_bind_eq_ok_iff {α β : Type} (x : Except Failure α) (f : α → Except Failure β) :
    (∃ b, x >>= f = .ok b) ↔ ∃ a, x = .ok a ∧ ∃ b, f a = .ok b := by
  cases x with
  | error e => simp [bind, Except.bind]
  | ok a => simp [bind, Except.bind]

/-- **A write is read if and only if it is well formed.** -/
theorem exists_meaning_iff (w : Statement × Params) : (∃ c, meaning w = .ok c) ↔ WellFormed w := by
  obtain ⟨statement, params⟩ := w
  cases statement with
  | upsertFile =>
    simp only [meaning, WellFormed, exists_bind_eq_ok_iff, textParam_eq_ok_iff, valueParam_eq_ok_iff]
    simp [pure, Except.pure]
  | upsertEntity =>
    simp only [meaning, WellFormed, exists_bind_eq_ok_iff, textParam_eq_ok_iff, valueParam_eq_ok_iff,
      tableParam_eq_ok_iff]
    simp [pure, Except.pure]
  | _ => simp [meaning, WellFormed]

/-- **Writes are read if and only if all of them are well formed.** -/
theorem exists_meanings_iff (writes : Pending) :
    (∃ changes, writes.mapM meaning = .ok changes) ↔ ∀ w ∈ writes, WellFormed w := by
  induction writes with
  | nil => simp [List.mapM_nil, pure, Except.pure]
  | cons w rest ih =>
    rw [List.mapM_cons, List.forall_mem_cons, ← exists_meaning_iff, ← ih]
    simp only [exists_bind_eq_ok_iff]
    simp [pure, Except.pure]

end CodeAtlas.Graph.Memory
