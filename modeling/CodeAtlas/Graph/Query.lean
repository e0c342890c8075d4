import CodeAtlas.Graph.Store

/-!
# Queries

A query is a statement with its parameters, built one parameter at a time and then sent.  A parameter
that has no JSON form spoils the query: it is never sent, and reports the first such parameter.

## Main definitions

* `CodeAtlas.Graph.Query` — a query.
* `CodeAtlas.Graph.Query.param`, `CodeAtlas.Graph.Query.raw` — one more parameter.
* `CodeAtlas.Graph.Query.run`, `CodeAtlas.Graph.Query.fetchAll`, `CodeAtlas.Graph.Query.fetchOne` —
  sending it.
-/

namespace CodeAtlas.Graph

/-- A statement with its parameters. -/
structure Query where
  /-- The text of the statement. -/
  text : String
  /-- The parameters. -/
  params : Params := []
  /-- Why the query cannot be sent. -/
  fault : Option Failure := none

namespace Query

variable {σ : Type}

/-- A parameter set to a JSON value. -/
def raw (name : String) (value : Json) (q : Query) : Query :=
  { q with params := q.params.insert name value }

/-- A parameter set to the JSON form of some data, or the reason why there is no such form. -/
def param (name : String) (value : Except String Json) (q : Query) : Query :=
  match value with
  | .ok v => q.raw name v
  | .error reason =>
    match q.fault with
    | some _ => q
    | none =>
      { q with fault := some (.internal s!"failed to serialize parameter '{name}': {reason}") }

/-- A parameter set to a text. -/
def string (name value : String) (q : Query) : Query := q.param name (.ok (.str value))

/-- The query sent, with its rows. -/
def execute (e : Executor σ) (q : Query) : Action σ Rows :=
  match q.fault with
  | some f => fun s => (.error f, s)
  | none => e.execute q.text q.params

/-- The query sent, without its rows. -/
def run (e : Executor σ) (q : Query) : Action σ Unit :=
  match q.fault with
  | some f => fun s => (.error f, s)
  | none => e.run q.text q.params

/-- All rows, or the first failure among them. -/
def collect : Rows → Except Failure (List Row)
  | [] => .ok []
  | .error f :: _ => .error f
  | .ok r :: rest =>
    match collect rest with
    | .error f => .error f
    | .ok rs => .ok (r :: rs)

/-- The first row, if there is one and it is no failure. -/
def first : Rows → Except Failure (Option Row)
  | [] => .ok none
  | .error f :: _ => .error f
  | .ok r :: _ => .ok (some r)

/-- All rows of the answer. -/
def fetchAll (e : Executor σ) (q : Query) : Action σ (List Row) := fun s =>
  match q.execute e s with
  | (.error f, s) => (.error f, s)
  | (.ok rows, s) => (collect rows, s)

/-- The first row of the answer. -/
def fetchOne (e : Executor σ) (q : Query) : Action σ (Option Row) := fun s =>
  match q.execute e s with
  | (.error f, s) => (.error f, s)
  | (.ok rows, s) => (first rows, s)

end Query

end CodeAtlas.Graph
