import CodeAtlas.Entity.Basic
import CodeAtlas.Json.Typed

/-!
# Stored entities

A record is an entity as it is stored in the graph, with its identity and its age.  It can be read
from an object, or from a list of the fields in order.

## Main definitions

* `CodeAtlas.Entity.Record` — a stored entity.
* `CodeAtlas.Entity.Record.read` — the record that a value stands for.
-/

namespace CodeAtlas.Entity

open CodeAtlas.Json

/-- The kind that a value stands for. -/
def Kind.read : Reader Kind :=
  readVariant [(Kind.function.label, .function), (Kind.classLike.label, .classLike)]

/-- A stored entity. -/
structure Record where
  /-- The identity. -/
  uid : String
  /-- The path of the file. -/
  path : String
  /-- What is declared. -/
  kind : Kind
  /-- The name. -/
  name : String
  /-- The identifier of the language. -/
  language : String
  /-- The first line. -/
  startLine : Nat
  /-- The last line. -/
  endLine : Nat
  /-- The text of the declaration. -/
  snippet : String
  /-- The documentation. -/
  doc : String
  /-- The vector. -/
  embedding : List Number.Binary32
  /-- When the entity was first stored. -/
  created : String
  deriving DecidableEq, Repr

namespace Record

/-- The fields, in order. -/
def fieldNames : List String :=
  ["uid", "path", "kind", "name", "language", "startLine", "endLine", "snippet", "doc",
   "embedding", "created"]

/-- What a field may hold. -/
inductive Field where
  /-- A text. -/
  | text (s : String)
  /-- A line number. -/
  | line (n : Nat)
  /-- A kind. -/
  | kind (k : Kind)
  /-- A vector. -/
  | vector (v : List Number.Binary32)

/-- What the value of a field stands for. -/
def readField (name : String) : Reader Field := fun v =>
  if name = "kind" then (Kind.read v).map .kind
  else if name = "startLine" ∨ name = "endLine" then (readSize v).map .line
  else if name = "embedding" then (readList readSingle v).map .vector
  else (readString v).map .text

/-- The fields of a table, read in the order of their keys up to the first that is refused.  Keys that
name no field are passed over. -/
def readFields : Table Json → Except Refusal (Table Field)
  | [] => .ok []
  | (key, v) :: rest =>
    if fieldNames.contains key then
      match readField key v with
      | .error e => .error e
      | .ok f =>
        match readFields rest with
        | .error e => .error e
        | .ok fs => .ok ((key, f) :: fs)
    else readFields rest

/-- The fields of a list, in order, up to the first that is refused; `index` counts those already
read. -/
def readPositions (index : Nat) : List String → List Json → Except Refusal (Table Field)
  | [], [] => .ok []
  | [], rest => .error (.wrongLength (index + rest.length) "fewer elements in array")
  | _ :: _, [] => .error (.wrongLength index "struct EntityRecord with 11 elements")
  | name :: names, v :: rest =>
    match readField name v with
    | .error e => .error e
    | .ok f =>
      match readPositions (index + 1) names rest with
      | .error e => .error e
      | .ok fs => .ok ((name, f) :: fs)

/-- The text in a field. -/
def textField (fields : Table Field) (name : String) : Except Refusal String :=
  match fields.get? name with
  | some (.text s) => .ok s
  | _ => .error (.missingField name)

/-- The line number in a field. -/
def lineField (fields : Table Field) (name : String) : Except Refusal Nat :=
  match fields.get? name with
  | some (.line n) => .ok n
  | _ => .error (.missingField name)

/-- The kind in a field. -/
def kindField (fields : Table Field) (name : String) : Except Refusal Kind :=
  match fields.get? name with
  | some (.kind k) => .ok k
  | _ => .error (.missingField name)

/-- The vector in a field. -/
def vectorField (fields : Table Field) (name : String) :
    Except Refusal (List Number.Binary32) :=
  match fields.get? name with
  | some (.vector v) => .ok v
  | _ => .error (.missingField name)

/-- The record with the fields; of several missing fields the first is reported. -/
def ofFields (fields : Table Field) : Except Refusal Record := do
  let uid ← textField fields "uid"
  let path ← textField fields "path"
  let kind ← kindField fields "kind"
  let name ← textField fields "name"
  let language ← textField fields "language"
  let startLine ← lineField fields "startLine"
  let endLine ← lineField fields "endLine"
  let snippet ← textField fields "snippet"
  let doc ← textField fields "doc"
  let embedding ← vectorField fields "embedding"
  let created ← textField fields "created"
  return ⟨uid, path, kind, name, language, startLine, endLine, snippet, doc, embedding, created⟩

/-- The record that a value stands for. -/
def read : Reader Record
  | .obj fields => (readFields fields).bind ofFields
  | .arr items => (readPositions 0 fieldNames items).bind ofFields
  | v => .error (.wrongType v "struct EntityRecord")

end Record

end CodeAtlas.Entity
