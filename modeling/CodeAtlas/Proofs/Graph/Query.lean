import Mathlib.Data.List.Induction
import CodeAtlas.Graph.Query
import CodeAtlas.Proofs.Graph.Execute
import CodeAtlas.Proofs.Table

/-!
# Queries as they are built and sent

A query is given its parameters one after the other.  A parameter without a JSON form spoils the query for good:
whatever is asked of it later, it reports the first such parameter, and the executor hears nothing.  Any other
query is sent exactly once, with its text as it was given and each parameter as it was set last.

## Main definitions

* `CodeAtlas.Graph.Setting` — a parameter that a query is given.
* `CodeAtlas.Graph.Query.build` — a query that was given some parameters.
* `CodeAtlas.Graph.LastSet` — the value to which a parameter was set last.
* `CodeAtlas.Graph.Executor.recorded` — the executor that writes down what it is asked to take.

## Main results

* `CodeAtlas.Graph.Query.fault_build` — a query reports the first parameter that has no JSON form.
* `CodeAtlas.Graph.Query.get?_params_build` — a parameter has the value to which it was set last.
* `CodeAtlas.Graph.Query.collect_eq_ok_iff`, `CodeAtlas.Graph.Query.collect_eq_error_iff` — all rows, or the
  first failure among them.
* `CodeAtlas.Graph.Query.build_reports_or_is_sent_once` — what becomes of a query.
-/

namespace CodeAtlas.Graph

variable {σ : Type}

/-! ## Parameters -/

/-- A parameter that a query is given. -/
inductive Setting where
  /-- Some data, with its JSON form or the reason why there is none. -/
  | data (name : String) (form : Except String Json)
  /-- A JSON value. -/
  | json (name : String) (value : Json)

namespace Setting

/-- The parameter that is set. -/
def name : Setting → String
  | .data name _ => name
  | .json name _ => name

/-- The value to which it is set, if there is one. -/
def value? : Setting → Option Json
  | .data _ (.ok v) => some v
  | .data _ (.error _) => none
  | .json _ v => some v

/-- The failure to set it. -/
def fault? : Setting → Option Failure
  | .data name (.error reason) => some (.internal s!"failed to serialize parameter '{name}': {reason}")
  | _ => none

/-- The query with the parameter. -/
def give (q : Query) : Setting → Query
  | .data name form => q.param name form
  | .json name value => q.raw name value

/-- A parameter has a value unless it cannot be set. -/
lemma fault?_eq_none_iff (s : Setting) : s.fault? = none ↔ s.value?.isSome = true := by
  rcases s with ⟨name, reason | v⟩ | ⟨name, v⟩ <;> simp [fault?, value?]

/-- A parameter leaves the text of the query alone. -/
@[simp] lemma text_give (q : Query) (s : Setting) : (s.give q).text = q.text := by
  rcases s with ⟨name, reason | v⟩ | ⟨name, v⟩
  · cases hq : q.fault <;> simp [give, Query.param, hq]
  · rfl
  · rfl

/-- The first failure stays. -/
lemma fault_give (q : Query) (s : Setting) : (s.give q).fault = q.fault.or s.fault? := by
  rcases s with ⟨name, reason | v⟩ | ⟨name, v⟩
  · cases hq : q.fault <;> simp [give, Query.param, hq, fault?]
  · simp [give, Query.param, Query.raw, fault?]
  · simp [give, Query.raw, fault?]

/-- A value takes the place of an earlier one. -/
lemma params_give (q : Query) {s : Setting} {v : Json} (h : s.value? = some v) :
    (s.give q).params = q.params.insert s.name v := by
  rcases s with ⟨name, reason | w⟩ | ⟨name, w⟩
  · simp [value?] at h
  · obtain rfl : w = v := Option.some.inj h
    rfl
  · obtain rfl : w = v := Option.some.inj h
    rfl

end Setting

/-- The parameter was set to the value, and not set again. -/
def LastSet (settings : List Setting) (name : String) (v : Json) : Prop :=
  ∃ before s after, settings = before ++ s :: after ∧ s.name = name ∧ s.value? = some v ∧
    ∀ t ∈ after, t.name ≠ name

/-- The last parameter decides for its name, and for no other.

**Proof sketch.** The last setting is the one that decides, with nothing behind it, or it stands behind the one that
decides and has another name. -/
lemma lastSet_append_singleton (settings : List Setting) (s : Setting) (name : String) (v : Json) :
    LastSet (settings ++ [s]) name v ↔
      if s.name = name then s.value? = some v else LastSet settings name v := by
  constructor
  · rintro ⟨before, t, after, hsplit, hname, hvalue, hafter⟩
    rcases List.eq_nil_or_concat after with rfl | ⟨after, u, rfl⟩
    · obtain ⟨-, hlast⟩ := List.append_inj' hsplit rfl
      obtain rfl : s = t := List.singleton_inj.mp hlast
      rw [if_pos hname]
      exact hvalue
    · rw [List.concat_eq_append, ← List.cons_append, ← List.append_assoc] at hsplit
      obtain ⟨hrest, hlast⟩ := List.append_inj' hsplit rfl
      obtain rfl : s = u := List.singleton_inj.mp hlast
      rw [if_neg (hafter s (by simp))]
      exact ⟨before, t, after, hrest, hname, hvalue, fun u hu => hafter u (by simp [hu])⟩
  · intro h
    split_ifs at h with hname
    · exact ⟨settings, s, [], rfl, hname, h, by simp⟩
    · obtain ⟨before, t, after, rfl, hname', hvalue, hafter⟩ := h
      refine ⟨before, t, after ++ [s], by simp, hname', hvalue, fun u hu => ?_⟩
      rcases List.mem_append.mp hu with hu | hu
      · exact hafter u hu
      · rw [List.mem_singleton.mp hu]
        exact hname

/-! ## Building -/

namespace Query

/-- The query with a text that was given some parameters, in order. -/
def build (text : String) (settings : List Setting) : Query :=
  settings.foldl Setting.give { text }

/-- One more parameter comes last. -/
lemma build_append_singleton (text : String) (settings : List Setting) (s : Setting) :
    build text (settings ++ [s]) = s.give (build text settings) := by
  rw [build, List.foldl_append]
  rfl

/-- A query keeps the text it began with. -/
@[simp] lemma text_build (text : String) (settings : List Setting) : (build text settings).text = text := by
  induction settings using List.reverseRecOn with
  | nil => rfl
  | append_singleton rest s ih => rw [build_append_singleton, Setting.text_give, ih]

/-- **A query reports the first parameter that has no JSON form.** -/
theorem fault_build (text : String) (settings : List Setting) :
    (build text settings).fault = settings.findSome? Setting.fault? := by
  induction settings using List.reverseRecOn with
  | nil => rfl
  | append_singleton rest s ih =>
    rw [build_append_singleton, Setting.fault_give, ih, List.findSome?_append, List.findSome?_singleton]

/-- The parameters of a query are in order, and each of them has the value to which it was set last, if
all of them could be set.

**Proof sketch.** Induction on the settings from the last one.  It is given to what was built before, under its own
name, and replaces what was there. -/
theorem get?_params_build (text : String) {settings : List Setting}
    (h : ∀ s ∈ settings, s.value?.isSome = true) :
    (build text settings).params.Ordered ∧
      ∀ name v, (build text settings).params.get? name = some v ↔ LastSet settings name v := by
  induction settings using List.reverseRecOn with
  | nil => exact ⟨List.Pairwise.nil, fun name v => by simp [build, Table.get?, LastSet]⟩
  | append_singleton rest s ih =>
    obtain ⟨hordered, hget⟩ := ih fun t ht => h t (by simp [ht])
    obtain ⟨w, hw⟩ := Option.isSome_iff_exists.mp (h s (by simp))
    rw [build_append_singleton, Setting.params_give _ hw]
    refine ⟨hordered.insert _ _, fun name v => ?_⟩
    rw [Table.get?_insert, lastSet_append_singleton, hw]
    by_cases hname : s.name = name
    · rw [if_pos hname, if_pos hname.symm]
    · rw [if_neg hname, if_neg (Ne.symm hname), hget]

/-! ## Rows -/

/-- A row that is no failure leaves the outcome to those after it. -/
lemma collect_ok_cons (r : Row) (rows : Rows) :
    collect (.ok r :: rows) = (collect rows).map (r :: ·) := by
  rw [collect]
  cases collect rows <;> rfl

/-- **All rows are there exactly if none of them is a failure.** -/
theorem collect_eq_ok_iff (rows : Rows) (rs : List Row) : collect rows = .ok rs ↔ rows = rs.map .ok := by
  constructor
  · intro h
    induction rows generalizing rs with
    | nil =>
      obtain rfl : [] = rs := Except.ok.inj h
      rfl
    | cons row rest ih =>
      cases row with
      | error f => simp [collect] at h
      | ok r =>
        rw [collect_ok_cons] at h
        cases hrest : collect rest with
        | error f => simp [hrest, Except.map] at h
        | ok rs' =>
          rw [hrest] at h
          obtain rfl : r :: rs' = rs := Except.ok.inj h
          rw [ih rs' hrest, List.map_cons]
  · rintro rfl
    exact collect_map_ok rs

/-- **The failure is the first among the rows.**

**Proof sketch.** Induction on the rows: a row that is there is passed over, and the first failure is the result. -/
theorem collect_eq_error_iff (rows : Rows) (f : Failure) :
    collect rows = .error f ↔
      ∃ (before : List Row) (after : Rows), rows = before.map .ok ++ .error f :: after := by
  constructor
  · intro h
    induction rows with
    | nil => simp [collect] at h
    | cons row rest ih =>
      cases row with
      | error f' =>
        obtain rfl : f' = f := Except.error.inj h
        exact ⟨[], rest, rfl⟩
      | ok r =>
        rw [collect_ok_cons] at h
        cases hrest : collect rest with
        | ok rs => simp [hrest, Except.map] at h
        | error f' =>
          rw [hrest] at h
          obtain rfl : f' = f := Except.error.inj h
          obtain ⟨before, after, rfl⟩ := ih hrest
          exact ⟨r :: before, after, rfl⟩
  · rintro ⟨before, after, rfl⟩
    induction before with
    | nil => rfl
    | cons r rest ih =>
      rw [List.map_cons, List.cons_append, collect_ok_cons, ih]
      rfl

/-- The first row, if there is one and it is no failure. -/
lemma first_eq_ok_iff (rows : Rows) (r : Option Row) : first rows = .ok r ↔ rows.head? = r.map .ok := by
  rcases rows with _ | ⟨f | row, rest⟩ <;> cases r <;> simp [first]

/-- The first row is a failure. -/
lemma first_eq_error_iff (rows : Rows) (f : Failure) :
    first rows = .error f ↔ rows.head? = some (.error f) := by
  rcases rows with _ | ⟨f' | row, rest⟩ <;> simp [first]

end Query

/-! ## Sending -/

/-- A statement that an executor has taken. -/
structure Taken where
  /-- Its rows were wanted. -/
  withRows : Bool
  /-- Its text. -/
  text : String
  /-- Its parameters. -/
  params : Params

/-- The executor that writes down the statements it takes. -/
def Executor.recorded (e : Executor σ) : Executor (σ × List Taken) where
  execute := fun text params (s, log) =>
    let (result, s) := e.execute text params s
    (result, s, log ++ [⟨true, text, params⟩])
  run := fun text params (s, log) =>
    let (result, s) := e.run text params s
    (result, s, log ++ [⟨false, text, params⟩])

namespace Query

variable {q : Query}

/-- A query with a fault reports it, whatever is asked of it. -/
lemma sent_of_fault {f : Failure} (h : q.fault = some f) (e : Executor σ) (s : σ) :
    q.run e s = (.error f, s) ∧ q.execute e s = (.error f, s) ∧ q.fetchAll e s = (.error f, s) ∧
      q.fetchOne e s = (.error f, s) := by
  simp only [run, fetchAll, fetchOne, execute, h, and_self]

/-- A query without a fault is sent. -/
lemma sent_of_no_fault (h : q.fault = none) (e : Executor σ) (s : σ) :
    q.run e s = e.run q.text q.params s ∧ q.execute e s = e.execute q.text q.params s ∧
      q.fetchAll e s = Prod.map (·.bind collect) id (e.execute q.text q.params s) ∧
      q.fetchOne e s = Prod.map (·.bind first) id (e.execute q.text q.params s) := by
  simp only [run, fetchAll, fetchOne, execute, h, true_and]
  rcases e.execute q.text q.params s with ⟨f | rows, s'⟩
  · exact ⟨rfl, rfl⟩
  · exact ⟨rfl, rfl⟩

/-- **What becomes of a query.**  If some parameter has no JSON form, then the first of these is reported,
whatever is asked of the query and whatever was set afterwards, and the executor takes nothing.  Otherwise the
executor takes exactly one statement: the text as it was given, with the parameters that were set, each to its
last value.  Of the rows that come back, all are given in order unless there is a failure among them, of which
the first is given instead; and the first row is given unless it is itself a failure.  So the first row is the
head of all rows, if these can be had.

**Proof sketch.** A query keeps the first fault of its settings, and with a fault nothing is sent.  Without one, the
text and the parameters are sent once, and the rows that come back are collected or looked at as they are. -/
theorem build_reports_or_is_sent_once (e : Executor σ) (text : String) (settings : List Setting) (s : σ)
    (log : List Taken) :
    (∀ before name reason after, settings = before ++ .data name (.error reason) :: after →
      (∀ t ∈ before, t.value?.isSome = true) →
      let f := Failure.internal s!"failed to serialize parameter '{name}': {reason}"
      (build text settings).run e.recorded (s, log) = (.error f, s, log) ∧
        (build text settings).execute e.recorded (s, log) = (.error f, s, log) ∧
        (build text settings).fetchAll e.recorded (s, log) = (.error f, s, log) ∧
        (build text settings).fetchOne e.recorded (s, log) = (.error f, s, log)) ∧
    ((∀ t ∈ settings, t.value?.isSome = true) →
      ∃ params : Params, params.Ordered ∧
        (∀ name v, params.get? name = some v ↔ LastSet settings name v) ∧
        (let (result, s') := e.run text params s
        (build text settings).run e.recorded (s, log) = (result, s', log ++ [⟨false, text, params⟩])) ∧
        let (result, s') := e.execute text params s
        (build text settings).execute e.recorded (s, log) = (result, s', log ++ [⟨true, text, params⟩]) ∧
          (build text settings).fetchAll e.recorded (s, log) =
            (result.bind collect, s', log ++ [⟨true, text, params⟩]) ∧
          (build text settings).fetchOne e.recorded (s, log) =
            (result.bind first, s', log ++ [⟨true, text, params⟩])) ∧
    ∀ rows : Rows,
      (∀ rs, collect rows = .ok rs ↔ rows = rs.map .ok) ∧
      (∀ f, collect rows = .error f ↔
        ∃ (before : List Row) (after : Rows), rows = before.map .ok ++ .error f :: after) ∧
      (∀ r, first rows = .ok r ↔ rows.head? = r.map .ok) ∧
      (∀ f, first rows = .error f ↔ rows.head? = some (.error f)) ∧
      ∀ rs, collect rows = .ok rs → first rows = .ok rs.head? := by
  refine ⟨fun before name reason after hsplit hbefore => ?_, fun hfine => ?_, fun rows => ?_⟩
  · refine sent_of_fault ?_ e.recorded (s, log)
    have hnone : before.findSome? Setting.fault? = none :=
      List.findSome?_eq_none_iff.mpr fun t ht => (Setting.fault?_eq_none_iff t).mpr (hbefore t ht)
    rw [fault_build, hsplit, List.findSome?_append, hnone]
    rfl
  · have hfault : (build text settings).fault = none := by
      rw [fault_build, List.findSome?_eq_none_iff]
      exact fun t ht => (Setting.fault?_eq_none_iff t).mpr (hfine t ht)
    obtain ⟨hordered, hget⟩ := get?_params_build text hfine
    have hsent := sent_of_no_fault hfault e.recorded (s, log)
    rw [text_build] at hsent
    exact ⟨(build text settings).params, hordered, hget, hsent⟩
  · refine ⟨collect_eq_ok_iff rows, collect_eq_error_iff rows, first_eq_ok_iff rows,
      first_eq_error_iff rows, fun rs hrs => ?_⟩
    rw [first_eq_ok_iff, (collect_eq_ok_iff rows rs).mp hrs, List.head?_map]

/-- A parameter that is set twice is sent with its second value, and one that could not be set at first is
reported although it is set again. -/
theorem build_reports_or_is_sent_once_set_twice :
    let e : Executor Unit := ⟨fun _ _ s => (.ok [], s), fun _ _ s => (.ok (), s)⟩
    let name := "line"
    let reason := "key must be a string"
    let fine : List Setting := [.data name (.ok (.int 1)), .json "path" .null, .data name (.ok (.int 2))]
    let spoilt : List Setting :=
      [.json "path" .null, .data name (.error reason), .data name (.ok (.int 2))]
    (∀ t ∈ fine, t.value?.isSome = true) ∧ LastSet fine name (.int 2) ∧
      (∃ params : Params, (∀ n v, params.get? n = some v ↔ LastSet fine n v) ∧
        (build "RETURN 1" fine).run e.recorded ((), []) = (.ok (), (), [⟨false, "RETURN 1", params⟩])) ∧
      (build "RETURN 1" spoilt).fetchAll e.recorded ((), []) =
        (.error (.internal s!"failed to serialize parameter '{name}': {reason}"), (), []) := by
  intro e name reason fine spoilt
  have hfine : ∀ t ∈ fine, t.value?.isSome = true := by decide
  obtain ⟨params, -, hlast, hrun, -⟩ := (build_reports_or_is_sent_once e "RETURN 1" fine () []).2.1 hfine
  have hspoilt := (build_reports_or_is_sent_once e "RETURN 1" spoilt () []).1 [.json "path" .null] name
    reason [.data name (.ok (.int 2))] rfl (by decide)
  exact ⟨hfine, ⟨[.data name (.ok (.int 1)), .json "path" .null], .data name (.ok (.int 2)), [], rfl, rfl,
    rfl, by simp⟩, ⟨params, hlast, hrun⟩, hspoilt.2.2.1⟩

end Query

end CodeAtlas.Graph
