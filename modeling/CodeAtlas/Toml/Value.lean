import CodeAtlas.Number.Binary
import CodeAtlas.Table

/-!
# TOML values

The values that a TOML document can hold.

## Main definitions

* `CodeAtlas.Toml.Value` — the values.
-/

namespace CodeAtlas.Toml

/-- A value of a document. -/
inductive Value where
  /-- A text. -/
  | text (s : String)
  /-- An integer with 64 bits. -/
  | integer (i : Int)
  /-- A number. -/
  | float (x : Number.Binary64)
  /-- A truth value. -/
  | boolean (b : Bool)
  /-- A date, a time or both, as it is written. -/
  | moment (s : String)
  /-- A list. -/
  | array (items : List Value)
  /-- A table; its keys are in order. -/
  | table (entries : List (String × Value))
  deriving Inhabited

end CodeAtlas.Toml
