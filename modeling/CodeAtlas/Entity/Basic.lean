import CodeAtlas.Json.Value
import CodeAtlas.Language.Basic

/-!
# Entities

An entity is a function or a class-like declaration of a source file.  Its identity in the graph is
composed of the path of the file, its first and last line, and its kind.

## Main definitions

* `CodeAtlas.Entity.Kind` — what a declaration is.
* `CodeAtlas.Entity` — a declaration with its place and text.
* `CodeAtlas.Entity.uid` — the identity of an entity of a file.
* `CodeAtlas.Entity.properties` — what is stored of an entity.
-/

namespace CodeAtlas

/-- What a declaration is.  Structures, enumerations, traits and the like count as classes. -/
inductive Entity.Kind where
  /-- A function or method. -/
  | function
  /-- A class or a declaration like one. -/
  | classLike
  deriving DecidableEq, Repr

namespace Entity.Kind

/-- The label of a kind. -/
def label : Kind → String
  | .function => "Function"
  | .classLike => "Class"

/-- The kind with a label. -/
def ofLabel? (text : String) : Option Kind :=
  if text = "Function" then some .function
  else if text = "Class" then some .classLike
  else none

/-- The refusal of a text that labels no kind. -/
def invalidLabel (text : String) : String := s!"Invalid entity kind: {text}"

end Entity.Kind

/-- A declaration of a source file.  Lines are counted from one, and the last one is included. -/
structure Entity where
  /-- What is declared. -/
  kind : Entity.Kind
  /-- The name. -/
  name : String
  /-- The language of the file. -/
  language : Language
  /-- The first line. -/
  startLine : Nat
  /-- The last line. -/
  endLine : Nat
  /-- The text of the declaration. -/
  snippet : String
  /-- The text that documents the declaration; empty if there is none. -/
  doc : String
  deriving DecidableEq, Repr

namespace Entity

/-- The name of a declaration for which none is found. -/
def anonymous : String := "<anon>"

/-- The identity of an entity of the file at `path`. -/
def uid (e : Entity) (path : String) : String :=
  path ++ ":" ++ toString e.startLine ++ ":" ++ toString e.endLine ++ ":" ++ e.kind.label

/-- What is stored of an entity of the file at `path`, besides its identity and its age. -/
def properties (e : Entity) (path : String) (embedding : List Number.Binary32) : Table Json :=
  Table.ofList
    [("path", .str path), ("kind", .str e.kind.label), ("name", .str e.name),
     ("language", .str e.language.id), ("startLine", .int e.startLine),
     ("endLine", .int e.endLine), ("snippet", .str e.snippet), ("doc", .str e.doc),
     ("embedding", .ofVector embedding)]

end Entity

end CodeAtlas
