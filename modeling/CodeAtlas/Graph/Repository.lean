import CodeAtlas.Entity.Record
import CodeAtlas.Graph.Query
import CodeAtlas.Graph.Statement

/-!
# The repository of files and entities

What the program does with a graph store: it sets up the schema, writes the entities of a file in one
transaction, and reads them back.

## Main definitions

* `CodeAtlas.Graph.Repository.ensureSchema` — the constraints of the store.
* `CodeAtlas.Graph.Repository.upsertBatch` — the entities of a file, all or none.
* `CodeAtlas.Graph.Repository.stats`, `CodeAtlas.Graph.Repository.findEntity`,
  `CodeAtlas.Graph.Repository.entityUids` — what is stored.
-/

namespace CodeAtlas.Graph

/-- The size of the graph. -/
structure Stats where
  /-- The number of files. -/
  files : Int
  /-- The number of entities. -/
  entities : Int
  /-- The number of containment edges. -/
  edges : Int
  /-- The number of entities that are not contained by exactly the file they name. -/
  violations : Int
  deriving DecidableEq, Repr

/-- The text of the size, without the violations. -/
def Stats.text (s : Stats) : String :=
  s!"{s.files} files, {s.entities} entities, {s.edges} containment edges"

/-- An entity with its vector. -/
abbrev Embedded := Entity × List Number.Binary32

namespace Repository

variable {σ τ : Type}

/-- The query of a statement. -/
def query (statement : Statement) : Query := { text := statement.text }

/-- Statements sent in order up to the first that fails. -/
def runAll (e : Executor σ) : List Query → Action σ Unit
  | [] => fun s => (.ok (), s)
  | q :: rest => fun s =>
    match q.run e s with
    | (.error f, s) => (.error f, s)
    | (.ok (), s) => runAll e rest s

/-- The constraints of the store, set outside any transaction. -/
def ensureSchema (store : Store σ τ) : Action σ Unit :=
  runAll store.direct (Statement.schema.map query)

/-- The query that stores a file. -/
def fileQuery (path now : String) : Query :=
  ((query .upsertFile).string "path" path).string "now" now

/-- The query that stores an entity of a file. -/
def entityQuery (path now : String) (e : Embedded) : Query :=
  ((((query .upsertEntity).string "path" path).string "uid" (e.1.uid path)).string "now" now).raw
    "props" (.obj (e.1.properties path e.2))

/-- The queries that store a file and some of its entities, in order. -/
def fileQueries (path now : String) (entities : List Embedded) : List Query :=
  fileQuery path now :: entities.map (entityQuery path now)

/-- Stores a file and some of its entities in one transaction.  If a statement fails, the transaction is
rolled back; any failure names the file. -/
def upsertBatch (store : Store σ τ) (now path : String) (entities : List Embedded) :
    Action σ Unit := fun s =>
  match store.start s with
  | (.error f, s) => (.error (.write path f), s)
  | (.ok t, s) =>
    match runAll store.within (fileQueries path now entities) (s, t) with
    | (.ok (), s, t) =>
      match store.commit t s with
      | (.ok (), s) => (.ok (), s)
      | (.error f, s) => (.error (.write path f), s)
    | (.error f, s, t) =>
      let (_, s) := store.rollback t s
      (.error (.write path f), s)

/-- The count in the first row, zero if there is none. -/
def count (store : Store σ τ) (statement : Statement) : Action σ Int := fun s =>
  match (query statement).fetchOne store.direct s with
  | (.error f, s) => (.error f, s)
  | (.ok none, s) => (.ok 0, s)
  | (.ok (some row), s) => ((row.getOptional Json.readSigned "count").map fun n => n.getD 0, s)

/-- The size of the graph. -/
def stats (store : Store σ τ) : Action σ Stats := do
  let files ← count store .countFiles
  let entities ← count store .countEntities
  let edges ← count store .countContains
  let violations ← count store .countViolations
  return ⟨files, entities, edges, violations⟩

/-- The entity with an identity. -/
def findEntity (store : Store σ τ) (uid : String) : Action σ (Option Entity.Record) := fun s =>
  match ((query .findEntity).string "uid" uid).fetchOne store.direct s with
  | (.error f, s) => (.error f, s)
  | (.ok none, s) => (.ok none, s)
  | (.ok (some row), s) => ((row.get Entity.Record.read "entity").map some, s)

/-- The column of every row, up to the first that has none. -/
def column {α : Type} (read : Json.Reader α) (name : String) : List Row → Except Failure (List α)
  | [] => .ok []
  | row :: rest =>
    match row.get read name with
    | .error f => .error f
    | .ok a =>
      match column read name rest with
      | .error f => .error f
      | .ok as => .ok (a :: as)

/-- The identities of the entities of a file, in order. -/
def entityUids (store : Store σ τ) (path : String) : Action σ (List String) := fun s =>
  match ((query .entityUids).string "path" path).fetchAll store.direct s with
  | (.error f, s) => (.error f, s)
  | (.ok rows, s) => (column Json.readString "uid" rows, s)

end Repository

end CodeAtlas.Graph
