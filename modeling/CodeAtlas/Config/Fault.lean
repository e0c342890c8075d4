import CodeAtlas.Number.Decimal
import CodeAtlas.Text.Quoted

/-!
# Refused settings

Why a setting is refused, which setting it is, and which source it came from.

## Main definitions

* `CodeAtlas.Config.Origin` — the source of a value.
* `CodeAtlas.Config.Found` — what a refused value is.
* `CodeAtlas.Config.Fault` — a refusal.
* `CodeAtlas.Config.Fault.message` — its wording.
-/

namespace CodeAtlas.Config

/-- The source of a value. -/
inductive Origin where
  /-- The configuration file at `path`. -/
  | file (path : String)
  /-- Environment variables with names of their own. -/
  | variables
  /-- The environment variables whose names start with `start`. -/
  | prefixed (start : String)
  deriving DecidableEq, Repr

namespace Origin

/-- How a message names the source. -/
def text : Origin → String
  | .file path => path ++ " TOML file"
  | .variables => "environment variable(s)"
  | .prefixed start => "`" ++ start ++ "` environment variable(s)"

/-- How a message names a setting of the source.  In a file the settings are those of the default
profile; the names of variables are in upper case. -/
def keyText (key : List String) : Origin → String
  | .file _ => ".".intercalate ("default" :: key)
  | _ => ".".intercalate (key.map fun k => String.ofList (k.toList.map Char.toUpper))

end Origin

/-- What a refused value is. -/
inductive Found where
  /-- A truth value. -/
  | bool (b : Bool)
  /-- An integer of a signed type. -/
  | signed (i : Int)
  /-- An integer of an unsigned type. -/
  | unsigned (n : Nat)
  /-- A number. -/
  | float (x : Number.Binary64)
  /-- A text. -/
  | text (s : String)
  /-- A list. -/
  | sequence
  /-- A table. -/
  | map
  /-- The unit value. -/
  | unit
  deriving DecidableEq, Repr

/-- How a message shows a value. -/
def Found.message : Found → String
  | .bool b => s!"bool {b}"
  | .signed i => s!"signed int `{i}`"
  | .unsigned n => s!"unsigned int `{n}`"
  | .float x => "float `" ++ x.positional ++ "`"
  | .text s => "string " ++ Text.quote s
  | .sequence => "sequence"
  | .map => "map"
  | .unit => "unit"

/-- Why a setting is refused. -/
inductive Cause where
  /-- The value has another type. -/
  | wrongType (found : Found) (expected : String)
  /-- The value is out of range. -/
  | wrongValue (found : Found) (expected : String)
  /-- The value names no alternative. -/
  | unknownVariant (name : String) (known : List String)
  /-- A source could not be read at all. -/
  | unreadable (reason : String)
  deriving DecidableEq, Repr

/-- Names in quotes, as a choice. -/
def oneOf (names : List String) : String :=
  match names with
  | [] => "no variants"
  | [a] => "`" ++ a ++ "`"
  | [a, b] => "`" ++ a ++ "` or `" ++ b ++ "`"
  | _ => "one of " ++ ", ".intercalate (names.map fun n => "`" ++ n ++ "`")

/-- The wording of a cause. -/
def Cause.message : Cause → String
  | .wrongType found expected => s!"invalid type: found {found.message}, expected {expected}"
  | .wrongValue found expected => s!"invalid value {found.message}, expected {expected}"
  | .unknownVariant name known =>
    "unknown variant: found `" ++ name ++ "`, expected `" ++ oneOf known ++ "`"
  | .unreadable reason => reason

/-- A refused setting. -/
structure Fault where
  /-- Why it is refused. -/
  cause : Cause
  /-- Which setting it is; empty if it is none in particular. -/
  key : List String := []
  /-- The source of the value, if it is known. -/
  origin : Option Origin := none
  deriving DecidableEq, Repr

/-- The wording of a refusal. -/
def Fault.message (f : Fault) : String :=
  match f.origin with
  | none => f.cause.message
  | some o =>
    f.cause.message
      ++ (if f.key.isEmpty then "" else " for key " ++ Text.quote (o.keyText f.key))
      ++ " in " ++ o.text

end CodeAtlas.Config
