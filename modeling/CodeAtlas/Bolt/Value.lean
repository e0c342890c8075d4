import CodeAtlas.Json.Value

/-!
# Values on the wire

The values that a database exchanges.  They are those of JSON, except that an integer has 64 bits with a
sign, and that a number may be infinite or no number at all.

## Main definitions

* `CodeAtlas.Bolt.Value` — the values.
* `CodeAtlas.Bolt.Value.ofJson`, `CodeAtlas.Bolt.Value.toJson` — from and to JSON.
-/

namespace CodeAtlas.Bolt

/-- A value on the wire. -/
inductive Value where
  /-- The null value. -/
  | null
  /-- A truth value. -/
  | bool (b : Bool)
  /-- An integer. -/
  | int (i : Int)
  /-- A number. -/
  | float (x : Number.Binary64)
  /-- A text. -/
  | str (s : String)
  /-- A list. -/
  | list (items : List Value)
  /-- A table; its keys are in order. -/
  | map (fields : List (String × Value))
  deriving Inhabited

namespace Value

/-- An integer that fits, or else the nearest number. -/
def ofInt (i : Int) : Value :=
  if Number.Word.isSigned i then .int i else .float (.ofInt i)

mutual

/-- The value of a JSON value. -/
def ofJson : Json → Value
  | .null => .null
  | .bool b => .bool b
  | .int i => ofInt i
  | .float x => .float x
  | .str s => .str s
  | .arr items => .list (ofItems items)
  | .obj fields => .map (ofFields fields)

/-- The values of some items. -/
def ofItems : List Json → List Value
  | [] => []
  | v :: rest => ofJson v :: ofItems rest

/-- The values of some fields. -/
def ofFields : List (String × Json) → List (String × Value)
  | [] => []
  | (key, v) :: rest => (key, ofJson v) :: ofFields rest

end

mutual

/-- The JSON value of a value; what JSON cannot write becomes null. -/
def toJson : Value → Json
  | .null => .null
  | .bool b => .bool b
  | .int i => .int i
  | .float x => if x.isFinite then .float x else .null
  | .str s => .str s
  | .list items => .arr (toItems items)
  | .map fields => .obj (toFields fields)

/-- The JSON values of some items. -/
def toItems : List Value → List Json
  | [] => []
  | v :: rest => toJson v :: toItems rest

/-- The JSON values of some fields. -/
def toFields : List (String × Value) → List (String × Json)
  | [] => []
  | (key, v) :: rest => (key, toJson v) :: toFields rest

end

end Value

end CodeAtlas.Bolt
