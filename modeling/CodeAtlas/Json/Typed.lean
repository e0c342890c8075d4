import CodeAtlas.Json.Value
import CodeAtlas.Number.Decimal
import CodeAtlas.Text.Quoted

/-!
# Reading JSON values as typed data

A reader takes a JSON value apart and either gives the data it stands for or says why it stands for
none.  The wording of a refusal shows what was found and what was expected.

## Main definitions

* `CodeAtlas.Json.Refusal` — why a value is refused.
* `CodeAtlas.Json.Reader` — what reads values.
* `CodeAtlas.Json.readSigned`, `CodeAtlas.Json.readString`, … — readers for basic types.
-/

namespace CodeAtlas.Json

open CodeAtlas.Number

/-- Why a value is refused. -/
inductive Refusal where
  /-- The value has another type. -/
  | wrongType (found : Json) (expected : String)
  /-- The value is out of range. -/
  | wrongValue (found : Json) (expected : String)
  /-- A field is missing. -/
  | missingField (name : String)
  /-- The text names no alternative. -/
  | unknownVariant (name : String) (known : List String)
  /-- A list has the wrong number of items. -/
  | wrongLength (length : Nat) (expected : String)
  deriving Inhabited

/-- How a message shows a value. -/
def describe : Json → String
  | .null => "null"
  | .bool b => s!"boolean `{b}`"
  | .int i => s!"integer `{i}`"
  | .float x => "floating point `" ++ x.scientific ++ "`"
  | .str s => "string " ++ Text.quote s
  | .arr _ => "sequence"
  | .obj _ => "map"

/-- The wording of a refusal. -/
def Refusal.message : Refusal → String
  | .wrongType found expected => s!"invalid type: {found.describe}, expected {expected}"
  | .wrongValue found expected => s!"invalid value: {found.describe}, expected {expected}"
  | .missingField name => s!"missing field `{name}`"
  | .unknownVariant name known =>
    "unknown variant `" ++ name ++ "`, expected "
      ++ " or ".intercalate (known.map fun k => "`" ++ k ++ "`")
  | .wrongLength length expected => s!"invalid length {length}, expected {expected}"

/-- What reads a value of type `α`. -/
abbrev Reader (α : Type) := Json → Except Refusal α

/-- An integer from `least` to `greatest`, both included. -/
def readInt (expected : String) (least greatest : Int) : Reader Int
  | .int i => if least ≤ i ∧ i ≤ greatest then .ok i else .error (.wrongValue (.int i) expected)
  | v => .error (.wrongType v expected)

/-- An integer with a sign and 64 bits. -/
def readSigned : Reader Int := readInt "i64" Word.leastSigned Word.greatestSigned

/-- A size, with 64 bits. -/
def readSize : Reader Nat := fun v => (readInt "usize" 0 Word.greatestUnsigned v).map Int.toNat

/-- A byte. -/
def readByte : Reader Nat := fun v => (readInt "u8" 0 255 v).map Int.toNat

/-- A number with 64 bits. -/
def readDouble : Reader Binary64
  | .int i => .ok (.ofInt i)
  | .float x => .ok x
  | v => .error (.wrongType v "f64")

/-- A number with 32 bits. -/
def readSingle : Reader Binary32
  | .int i => .ok (.ofInt i)
  | .float x => .ok (.ofBinary64 x)
  | v => .error (.wrongType v "f32")

/-- A truth value. -/
def readBool : Reader Bool
  | .bool b => .ok b
  | v => .error (.wrongType v "a boolean")

/-- A text. -/
def readString : Reader String
  | .str s => .ok s
  | v => .error (.wrongType v "a string")

/-- The items of a list, read one by one up to the first that is refused. -/
def readItems {α : Type} (item : Reader α) : List Json → Except Refusal (List α)
  | [] => .ok []
  | v :: rest =>
    match item v with
    | .error e => .error e
    | .ok a =>
      match readItems item rest with
      | .error e => .error e
      | .ok as => .ok (a :: as)

/-- A list. -/
def readList {α : Type} (item : Reader α) : Reader (List α)
  | .arr items => readItems item items
  | v => .error (.wrongType v "a sequence")

/-- One of some names, each of which may also be the only key of an object that holds null. -/
def readVariant {α : Type} (known : List (String × α)) : Reader α
  | .str s =>
    match known.lookup s with
    | some a => .ok a
    | none => .error (.unknownVariant s (known.map Prod.fst))
  | .obj [(key, content)] =>
    match known.lookup key with
    | some a =>
      match content with
      | .null => .ok a
      | v => .error (.wrongType v "unit")
    | none => .error (.unknownVariant key (known.map Prod.fst))
  | .obj fields => .error (.wrongValue (.obj fields) "map with a single key")
  | v => .error (.wrongType v "string or map")

end CodeAtlas.Json
