import CodeAtlas.Config.Fault
import CodeAtlas.Table
import CodeAtlas.Toml.Value

/-!
# Layers of settings

Each source of settings is a layer: a table of values that remember where they came from.  A later
layer is laid over an earlier one key by key; lists and single values are replaced as a whole.

## Main definitions

* `CodeAtlas.Config.Value` — a value with its source.
* `CodeAtlas.Config.Value.merge` — one layer over another.
* `CodeAtlas.Config.Value.get?` — the value at a path.
* `CodeAtlas.Config.Value.ofToml` — the layer of a file.
-/

namespace CodeAtlas.Config

/-- A value without parts. -/
inductive Scalar where
  /-- A truth value. -/
  | bool (b : Bool)
  /-- An integer of a signed type. -/
  | signed (i : Int)
  /-- An integer of an unsigned type. -/
  | unsigned (n : Nat)
  /-- A number. -/
  | float (x : Number.Binary64)
  /-- A single character; it is as good as a text, except as a name. -/
  | char (c : Char)
  /-- A text. -/
  | text (s : String)
  deriving DecidableEq, Repr

/-- What a message says a value is. -/
def Scalar.found : Scalar → Found
  | .bool b => .bool b
  | .signed i => .signed i
  | .unsigned n => .unsigned n
  | .float x => .float x
  | .char c => .text c.toString
  | .text s => .text s

/-- A value with the source it came from. -/
inductive Value where
  /-- A value without parts. -/
  | scalar (origin : Origin) (s : Scalar)
  /-- A list. -/
  | list (origin : Origin) (items : List Value)
  /-- A table; its keys are in order. -/
  | table (origin : Origin) (entries : List (String × Value))

namespace Value

/-- The source of a value. -/
def origin : Value → Origin
  | .scalar o _ => o
  | .list o _ => o
  | .table o _ => o

/-- What a message says a value is. -/
def found : Value → Found
  | .scalar _ s => s.found
  | .list .. => .sequence
  | .table .. => .map

/-- The value at a path. -/
def get? : List String → Value → Option Value
  | [], v => some v
  | key :: path, .table _ entries =>
    match Table.get? key entries with
    | some v => v.get? path
    | none => none
  | _ :: _, _ => none

mutual

/-- The second value laid over the first: two tables are merged key by key, anything else is
replaced. -/
def merge : Value → Value → Value
  | .table _ below, .table o above => .table o (mergeEntries below above)
  | _, above => above

/-- The entries with further entries laid over them. -/
def mergeEntries (below : Table Value) : List (String × Value) → Table Value
  | [] => below
  | (key, v) :: rest =>
    mergeEntries (below.insert key (match Table.get? key below with
      | some old => merge old v
      | none => v)) rest

end

/-- A value at the end of a path of tables. -/
def nest (o : Origin) : List String → Value → Value
  | [], v => v
  | key :: path, v => .table o [(key, nest o path v)]

mutual

/-- The value of a file, with the file as its source.  A moment has no counterpart among the values and
counts as a table. -/
def ofToml (o : Origin) : Toml.Value → Value
  | .text s => .scalar o (.text s)
  | .integer i => .scalar o (.signed i)
  | .float x => .scalar o (.float x)
  | .boolean b => .scalar o (.bool b)
  | .moment s => .table o [("moment", .scalar o (.text s))]
  | .array items => .list o (ofTomlItems o items)
  | .table entries => .table o (ofTomlEntries o entries)

/-- The values of some items. -/
def ofTomlItems (o : Origin) : List Toml.Value → List Value
  | [] => []
  | v :: rest => ofToml o v :: ofTomlItems o rest

/-- The values of some entries. -/
def ofTomlEntries (o : Origin) : List (String × Toml.Value) → List (String × Value)
  | [] => []
  | (key, v) :: rest => (key, ofToml o v) :: ofTomlEntries o rest

end

end Value

end CodeAtlas.Config
