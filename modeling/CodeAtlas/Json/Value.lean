import CodeAtlas.Number.Binary
import CodeAtlas.Number.Word
import CodeAtlas.Table

/-!
# JSON values

A JSON value keeps integers apart from other numbers: `2` and `2.0` are different values.  The
fields of an object are a table, so that their order in a text is forgotten.

## Main definitions

* `CodeAtlas.Json` — the values.
* `CodeAtlas.Json.field?` — a field of an object.
-/

namespace CodeAtlas

/-- A JSON value. -/
inductive Json where
  /-- The null value. -/
  | null
  /-- A truth value. -/
  | bool (b : Bool)
  /-- An integer. -/
  | int (i : Int)
  /-- A number that is not written as an integer. -/
  | float (x : Number.Binary64)
  /-- A text. -/
  | str (s : String)
  /-- A list of values. -/
  | arr (items : List Json)
  /-- A table of values. -/
  | obj (fields : List (String × Json))
  deriving Inhabited, Repr, BEq

namespace Json

/-- The least integer that stays an integer. -/
def leastInt : Int := Number.Word.leastSigned

/-- The greatest integer that stays an integer. -/
def greatestInt : Int := Number.Word.greatestUnsigned

/-- A field of an object; none for any other value. -/
def field? (key : String) : Json → Option Json
  | .obj fields => Table.get? key fields
  | _ => none

/-- A list of 32-bit numbers.  JSON has no numeral for an infinity or for what is no number, so these
become null. -/
def ofVector (vector : List Number.Binary32) : Json :=
  .arr (vector.map fun x => if x.isFinite then .float x.toBinary64 else .null)

end Json

end CodeAtlas
