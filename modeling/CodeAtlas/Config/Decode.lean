import CodeAtlas.Config.Settings
import CodeAtlas.Config.Value

/-!
# Settings from layers

Reads the settings from the merged layers.  A setting that is not given keeps its default, a key that
names no setting is passed over, and the first setting of the wrong form is refused; settings are looked
at in the order of their keys.

A section may also be given as a list of its settings in their fixed order.

## Main definitions

* `CodeAtlas.Config.Decoder` — a way to read a value.
* `CodeAtlas.Config.Settings.ofValue` — the settings of a layer.
-/

namespace CodeAtlas.Config

/-- A way to read a value. -/
abbrev Decoder (α : Type) := Value → Except Fault α

/-- The refusal of a part of a setting, as a refusal of the setting with key `key`. -/
def Fault.under (key : String) (f : Fault) : Fault := { f with key := key :: f.key }

/-- A refusal of the part under `key` is one of the whole. -/
def within {α : Type} (key : String) (r : Except Fault α) : Except Fault α :=
  r.mapError (Fault.under key)

/-- The refusal of a value of another type. -/
def mismatch {α : Type} (v : Value) (expected : String) : Except Fault α :=
  .error { cause := .wrongType v.found expected, origin := some v.origin }

/-- A text, described as `expected`. -/
def decodeText (expected : String) : Decoder String
  | .scalar _ (.text s) => .ok s
  | .scalar _ (.char c) => .ok c.toString
  | v => mismatch v expected

/-- A natural number, described as `expected`. -/
def decodeNat (expected : String) : Decoder Nat
  | .scalar _ (.unsigned n) => .ok n
  | .scalar o (.signed i) =>
    if i < 0 then .error { cause := .wrongValue (.signed i) expected, origin := some o }
    else .ok i.toNat
  | v => mismatch v expected

/-- A list of texts; `index` counts the items before these. -/
def decodeTexts (index : Nat) : List Value → Except Fault (List String)
  | [] => .ok []
  | v :: rest => do
    let s ← within (toString index) (decodeText "a string" v)
    let more ← decodeTexts (index + 1) rest
    return s :: more

/-- A list of texts. -/
def decodeList : Decoder (List String)
  | .list _ items => decodeTexts 0 items
  | v => mismatch v "a sequence"

/-- A backend by its name, or as a table whose first key is its name.  Such a table would have to hold
the unit value, which no source can give. -/
def decodeBackend : Decoder Backend
  | .scalar o (.text s) => byName o s
  | .table o [] => .error { cause := .wrongType .map "enum", origin := some o }
  | .table o ((name, v) :: _) => do
    let _ ← byName o name
    within name (mismatch v "unit")
  | v => mismatch v "enum GraphBackend"
where
  /-- The backend with a name. -/
  byName (o : Origin) (s : String) : Except Fault Backend :=
    match [Backend.neo4j, .memory].find? fun b => b.name = s with
    | some b => .ok b
    | none =>
      .error { cause := .unknownVariant s ["neo4j", "memory"], origin := some o }

/-- A section: how its settings are called in their fixed order, and how each one is read into the
section. -/
structure Schema (α : Type) where
  /-- What a message calls the section. -/
  title : String
  /-- The keys of the settings, in their fixed order. -/
  keys : List String
  /-- Reads the setting with a key into the section; other keys change nothing. -/
  set : String → Value → α → Except Fault α

namespace Schema

variable {α : Type}

/-- Reads entries in their order. -/
def setEntries (s : Schema α) : List (String × Value) → α → Except Fault α
  | [], a => .ok a
  | (key, v) :: rest, a => do
    let a ← within key (s.set key v a)
    s.setEntries rest a

/-- Reads items as the settings with the given keys; `index` counts the items before these. -/
def setItems (s : Schema α) (index : Nat) : List String → List Value → α → Except Fault α
  | key :: keys, v :: rest, a => do
    let a ← within (toString index) (s.set key v a)
    s.setItems (index + 1) keys rest a
  | _, _, a => .ok a

/-- The section that a value gives, where `default` holds what is not given. -/
def decode (s : Schema α) (default : α) : Decoder α
  | .table _ entries => s.setEntries entries default
  | .list _ items => s.setItems 0 s.keys items default
  | v => mismatch v s.title

end Schema

/-- The settings of the graph store. -/
def graphSchema : Schema GraphSettings where
  title := "struct GraphConfig"
  keys := ["backend", "uri", "user", "password"]
  set key v a :=
    match key with
    | "backend" => do return { a with backend := ← decodeBackend v }
    | "uri" => do return { a with uri := ← decodeText "a string" v }
    | "user" => do return { a with user := ← decodeText "a string" v }
    | "password" => do return { a with password := some (← decodeText "a string" v) }
    | _ => .ok a

/-- The settings of the embeddings. -/
def embeddingSchema : Schema EmbeddingSettings where
  title := "struct EmbeddingConfig"
  keys := ["api_key", "endpoint", "model", "dimensions", "timeout_secs"]
  set key v a :=
    match key with
    | "api_key" => do return { a with apiKey := some (← decodeText "a string" v) }
    | "endpoint" => do return { a with endpoint := ← decodeText "a string" v }
    | "model" => do return { a with model := ← decodeText "a string" v }
    | "dimensions" => do return { a with dimensions := ← decodeNat "usize" v }
    | "timeout_secs" => do return { a with timeoutSeconds := ← decodeNat "u64" v }
    | _ => .ok a

/-- The settings of a run. -/
def ingestSchema : Schema IngestSettings where
  title := "struct IngestConfig"
  keys := ["root", "batch_size", "concurrency", "include", "exclude"]
  set key v a :=
    match key with
    | "root" => do return { a with root := ← decodeText "path string" v }
    | "batch_size" => do return { a with batchSize := ← decodeNat "usize" v }
    | "concurrency" => do return { a with concurrency := ← decodeNat "usize" v }
    | "include" => do return { a with includes := ← decodeList v }
    | "exclude" => do return { a with excludes := ← decodeList v }
    | _ => .ok a

/-- All sections. -/
def settingsSchema : Schema Settings where
  title := "struct Config"
  keys := ["graph", "embedding", "ingest"]
  set key v a :=
    match key with
    | "graph" => do return { a with graph := ← graphSchema.decode {} v }
    | "embedding" => do return { a with embedding := ← embeddingSchema.decode {} v }
    | "ingest" => do return { a with ingest := ← ingestSchema.decode {} v }
    | _ => .ok a

/-- The settings that a layer gives. -/
def Settings.ofValue : Decoder Settings := settingsSchema.decode {}

end CodeAtlas.Config
