import CodeAtlas.Failure
import CodeAtlas.Text.Blank

/-!
# Settings

All settings of the program, with their defaults.

## Main definitions

* `CodeAtlas.Config.Settings` — the settings by section.
* `CodeAtlas.Config.EmbeddingSettings.credential` — the key of the remote provider.
* `CodeAtlas.Config.Settings.validate` — the settings with which a run makes sense.
-/

namespace CodeAtlas.Config

/-- Where the graph is stored. -/
inductive Backend where
  /-- A graph database. -/
  | neo4j
  /-- Memory; nothing outlives the run. -/
  | memory
  deriving DecidableEq, Repr

/-- The name of a backend. -/
def Backend.name : Backend → String
  | .neo4j => "neo4j"
  | .memory => "memory"

/-- How to reach the graph store. -/
structure GraphSettings where
  /-- Where the graph is stored. -/
  backend : Backend := .neo4j
  /-- The address of the database. -/
  uri : String := "bolt://localhost:7687"
  /-- The user of the database. -/
  user : String := "neo4j"
  /-- The password of the user. -/
  password : Option String := none
  deriving DecidableEq, Repr

/-- How to obtain vectors. -/
structure EmbeddingSettings where
  /-- The key of the remote provider. -/
  apiKey : Option String := none
  /-- The address of the remote provider. -/
  endpoint : String := "https://api.openai.com/v1"
  /-- The model that is asked for. -/
  model : String := "text-embedding-3-small"
  /-- The number of components of a vector. -/
  dimensions : Nat := 1536
  /-- How long to wait for an answer, in seconds. -/
  timeoutSeconds : Nat := 30
  deriving DecidableEq, Repr

/-- The key of the remote provider without surrounding blanks; none if nothing is left of it. -/
def EmbeddingSettings.credential (s : EmbeddingSettings) : Option String :=
  match s.apiKey with
  | none => none
  | some key =>
    let trimmed := Text.trim key
    if trimmed.isEmpty then none else some trimmed

/-- The directories that never hold sources of the project itself. -/
def defaultExcludes : List String :=
  ["**/.git/**", "**/node_modules/**", "**/target/**", "**/dist/**", "**/build/**",
   "**/__pycache__/**", "**/.venv/**", "**/venv/**"]

/-- What to read, and in which portions to write. -/
structure IngestSettings where
  /-- The directory to scan. -/
  root : String := "."
  /-- The number of entities that are written at a time. -/
  batchSize : Nat := 200
  /-- The number of files that are parsed at a time. -/
  concurrency : Nat := 4
  /-- The patterns of which a path must match one; none for all paths. -/
  includes : List String := []
  /-- The patterns of which a path must match none. -/
  excludes : List String := defaultExcludes
  deriving DecidableEq, Repr

/-- All settings. -/
structure Settings where
  /-- How to reach the graph store. -/
  graph : GraphSettings := {}
  /-- How to obtain vectors. -/
  embedding : EmbeddingSettings := {}
  /-- What to read, and in which portions to write. -/
  ingest : IngestSettings := {}
  deriving DecidableEq, Repr

/-- Refuses settings with which a run cannot make progress. -/
def Settings.validate (s : Settings) : Except Failure Unit :=
  if s.ingest.batchSize = 0 then .error (.validation "ingest.batch_size must be > 0")
  else if s.ingest.concurrency = 0 then .error (.validation "ingest.concurrency must be > 0")
  else if s.embedding.dimensions = 0 then .error (.validation "embedding.dimensions must be > 0")
  else .ok ()

end CodeAtlas.Config
