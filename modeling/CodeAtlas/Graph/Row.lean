import CodeAtlas.Failure
import CodeAtlas.Json.Typed

/-!
# Rows and parameters

A statement is sent with named parameters and answered with rows of named columns.

## Main definitions

* `CodeAtlas.Graph.Params` — the parameters of a statement.
* `CodeAtlas.Graph.Row` — one row of an answer.
* `CodeAtlas.Graph.Row.get`, `CodeAtlas.Graph.Row.getOptional` — typed columns.
-/

namespace CodeAtlas.Graph

/-- The parameters of a statement. -/
abbrev Params := Table Json

/-- One row of an answer. -/
structure Row where
  /-- The values by column. -/
  columns : Table Json
  deriving Inhabited, Repr, BEq

/-- The rows of an answer, in which each may turn out to be a failure. -/
abbrev Rows := List (Except Failure Row)

namespace Row

/-- The row with one column. -/
def single (column : String) (value : Json) : Row := ⟨[(column, value)]⟩

/-- The failure to read a column. -/
def unreadable (column : String) (e : Json.Refusal) : Failure :=
  .internal s!"failed to deserialize '{column}': {e.message}"

/-- The value of a column, which must be there. -/
def get {α : Type} (read : Json.Reader α) (column : String) (r : Row) : Except Failure α :=
  match r.columns.get? column with
  | none => .error (.internal s!"column not found: {column}")
  | some v => (read v).mapError (unreadable column)

/-- The value of a column, which may be missing or null. -/
def getOptional {α : Type} (read : Json.Reader α) (column : String) (r : Row) :
    Except Failure (Option α) :=
  match r.columns.get? column with
  | none => .ok none
  | some .null => .ok none
  | some v => ((read v).map some).mapError (unreadable column)

/-- The columns among those asked for that the row has. -/
def select (wanted : List String) (r : Row) : List (String × Json) :=
  wanted.filterMap fun c => (r.columns.get? c).map (c, ·)

end Row

end CodeAtlas.Graph
