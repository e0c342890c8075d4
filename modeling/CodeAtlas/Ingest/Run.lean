import CodeAtlas.Config.Settings
import CodeAtlas.Elapsed
import CodeAtlas.Embedding.Basic
import CodeAtlas.Entity.Blob
import CodeAtlas.Ingest.Group
import CodeAtlas.Ingest.Input

/-!
# Runs

A run parses all files, and then embeds their entities one by one, in order, into a batch.  Whenever the
batch is full it is written, one file at a time and each file in a transaction of its own.  The first
failure ends the run; what has been committed stays.

## Main definitions

* `CodeAtlas.Ingest.Summary` — what a run did.
* `CodeAtlas.Ingest.flush` — a batch written.
* `CodeAtlas.Ingest.Asking` — how vectors are obtained, by an action on the state of the run.
* `CodeAtlas.Ingest.upsertAll` — all entities embedded and written.
* `CodeAtlas.Ingest.runFiles` — a run over given files.
* `CodeAtlas.Ingest.run` — a run over the files below a directory.
-/

namespace CodeAtlas.Ingest

open CodeAtlas.Graph CodeAtlas.Embedding

/-- What a run does at a time. -/
inductive Phase where
  /-- It looks for files. -/
  | discovering
  /-- It parses them. -/
  | parsing
  /-- It embeds and writes their entities. -/
  | upserting
  /-- It has ended well. -/
  | done
  /-- It has failed. -/
  | failed
  deriving DecidableEq, Repr

namespace Phase

/-- All phases. -/
def all : List Phase := [.discovering, .parsing, .upserting, .done, .failed]

/-- The name of a phase. -/
def name : Phase → String
  | .discovering => "discovering"
  | .parsing => "parsing"
  | .upserting => "upserting"
  | .done => "done"
  | .failed => "failed"

end Phase

/-- What a run did. -/
structure Summary where
  /-- The number of files it was given. -/
  discovered : Nat := 0
  /-- The number of files that parsed. -/
  parsed : Nat := 0
  /-- The number of files that were skipped. -/
  skipped : Nat := 0
  /-- The number of entities that were written. -/
  written : Nat := 0
  /-- The number of entities of each batch that was written, in order. -/
  flushes : List Nat := []
  deriving DecidableEq, Repr

/-- The text of a summary, with the time that the run took. -/
def Summary.text (s : Summary) (elapsed : String) : String :=
  s!"{s.discovered} files scanned ({s.parsed} parsed, {s.skipped} skipped), "
    ++ s!"{s.written} entities written in {s.flushes.length} flushes, {elapsed}"

/-- How far the writing has come. -/
structure Progress where
  /-- The number of calls of the embedder. -/
  calls : Nat := 0
  /-- The number of batches begun. -/
  batches : Nat := 0
  /-- The number of groups committed. -/
  groups : Nat := 0
  /-- The number of entities committed. -/
  written : Nat := 0
  /-- The sizes of the batches written, in order. -/
  flushes : List Nat := []
  deriving DecidableEq, Repr

/-- A step of the writing: it may fail, but tells in any case how far it came. -/
abbrev Writing (σ : Type) := Progress → σ → Except Failure Unit × Progress × σ

variable {σ τ : Type}

/-- Groups written in order up to the first that fails.  The time of each is that of the clock at its
number. -/
def writeGroups (store : Store σ τ) (clock : Nat → String) : List Group → Writing σ
  | [], p, s => (.ok (), p, s)
  | (path, entities) :: rest, p, s =>
    match Repository.upsertBatch store (clock p.groups) path entities s with
    | (.error f, s) => (.error f, p, s)
    | (.ok (), s) =>
      writeGroups store clock rest
        { p with groups := p.groups + 1, written := p.written + entities.length } s

/-- A batch written, one file at a time. -/
def flush (store : Store σ τ) (clock : Nat → String) (batch : List Item) : Writing σ := fun p s =>
  match writeGroups store clock (groupByFile batch) { p with batches := p.batches + 1 } s with
  | (.error f, p, s) => (.error f, p, s)
  | (.ok (), p, s) => (.ok (), { p with flushes := p.flushes ++ [batch.length] }, s)

/-- The vector of an entity, which must have the right number of components. -/
def embedEntity (embedder : Embedder) (call : Nat) (path : String) (e : Entity) :
    Except Failure Embedding.Vector :=
  match embedder.embed call (e.compose path) with
  | .error f => .error f
  | .ok v =>
    if v.length = embedder.dimensions then .ok v
    else .error (.embedding
      s!"vector for {e.uid path} has {v.length} dimensions, expected {embedder.dimensions}")

/-- How the vector of an entity of the file at a path is obtained, at a call with a number. -/
abbrev Asking (σ : Type) := Nat → String → Entity → Action σ Embedding.Vector

/-- An embedder is asked, which does not touch the state. -/
def asking (embedder : Embedder) : Asking σ := fun call path e s => (embedEntity embedder call path e, s)

/-- Entities with the paths of their files, embedded one by one into the batch, which is written whenever
it has `batchSize` items, and at the end if anything is left. -/
def upsertAllBy (store : Store σ τ) (ask : Asking σ) (clock : Nat → String) (batchSize : Nat)
    (batch : List Item) : List (String × Entity) → Writing σ
  | [], p, s => if batch.isEmpty then (.ok (), p, s) else flush store clock batch p s
  | (path, e) :: rest, p, s =>
    match ask p.calls path e s with
    | (.error f, s) => (.error f, { p with calls := p.calls + 1 }, s)
    | (.ok v, s) =>
      let batch := batch ++ [⟨path, e, v⟩]
      let p := { p with calls := p.calls + 1 }
      if batchSize ≤ batch.length then
        match flush store clock batch p s with
        | (.error f, p, s) => (.error f, p, s)
        | (.ok (), p, s) => upsertAllBy store ask clock batchSize [] rest p s
      else upsertAllBy store ask clock batchSize batch rest p s

/-- Entities embedded by an embedder and written. -/
def upsertAll (store : Store σ τ) (embedder : Embedder) (clock : Nat → String) (batchSize : Nat)
    (batch : List Item) (entities : List (String × Entity)) : Writing σ :=
  upsertAllBy store (asking embedder) clock batchSize batch entities

/-- The entities of files, with the paths of the files, in order. -/
def flatten (files : List Parsed) : List (String × Entity) :=
  files.flatMap fun f => f.entities.map fun e => (f.path, e)

/-- How a run ended and how it got there. -/
structure Report where
  /-- The result. -/
  result : Except Failure Unit
  /-- What the run did. -/
  summary : Summary
  /-- The store could be set up. -/
  ready : Bool
  /-- What became of the files. -/
  parsing : Parsing
  /-- How far the writing came. -/
  progress : Progress

/-- The summary of a run. -/
def Summary.ofRun (inputs : List Input) (parsing : Parsing) (p : Progress) : Summary :=
  ⟨inputs.length, parsing.parsed.length, parsing.skipped.length, p.written, p.flushes⟩

/-- A run over given files.  A batch holds at least one entity. -/
def runFilesBy (store : Store σ τ) (ask : Asking σ) (clock : Nat → String) (batchSize : Nat)
    (inputs : List Input) (s : σ) : Report × σ :=
  match Repository.ensureSchema store s with
  | (.error f, s) =>
    (⟨.error f, { discovered := inputs.length }, false, {}, {}⟩, s)
  | (.ok (), s) =>
    let parsing := parseAll inputs
    match parsing.fatal with
    | some f => (⟨.error f, .ofRun inputs parsing {}, true, parsing, {}⟩, s)
    | none =>
      let (result, p, s) := upsertAllBy store ask clock (max batchSize 1) [] (flatten parsing.parsed) {} s
      (⟨result, .ofRun inputs parsing p, true, parsing, p⟩, s)

/-- A run over given files with an embedder. -/
def runFiles (store : Store σ τ) (embedder : Embedder) (clock : Nat → String) (batchSize : Nat)
    (inputs : List Input) (s : σ) : Report × σ :=
  runFilesBy store (asking embedder) clock batchSize inputs s

/-- The files that a run is given: the source files below the root directory of the settings. -/
def inputsOf (tree : Files.Entry) (base : List String) (settings : Config.IngestSettings) :
    Except Failure (List Input) := do
  let filter ← Files.Filter.ofPatterns settings.includes settings.excludes
  let found ← Files.discover tree base settings.root filter
  return found.map (Input.ofFound tree base)

/-- A run over the source files below the root directory of the settings. -/
def run (store : Store σ τ) (embedder : Embedder) (clock : Nat → String) (tree : Files.Entry)
    (base : List String) (settings : Config.IngestSettings) (s : σ) :
    Except Failure Report × σ :=
  match inputsOf tree base settings with
  | .error f => (.error f, s)
  | .ok inputs =>
    let (report, s) := runFiles store embedder clock settings.batchSize inputs s
    (.ok report, s)

end CodeAtlas.Ingest
