import CodeAtlas.App.Arguments
import CodeAtlas.App.Log
import CodeAtlas.Bolt.Client
import CodeAtlas.Config.Load
import CodeAtlas.Embedding.Remote
import CodeAtlas.Graph.Memory
import CodeAtlas.Ingest.Run

/-!
# The program

The program reads its arguments, finds its settings, and either sets up the store or makes a run.  All
that it does to the world outside is in its outcome: what it prints, what it reports, how it ends.

## Main definitions

* `CodeAtlas.App.World` — what the program can reach.
* `CodeAtlas.App.Outcome` — what it did.
* `CodeAtlas.App.run` — the program, given its arguments.
* `CodeAtlas.App.launch` — the program, given the words of its command line.
-/

namespace CodeAtlas.App

open CodeAtlas.Graph

/-- What the program can reach, with a database in state `σ`. -/
structure World (σ : Type) where
  /-- The files and variables. -/
  surroundings : Config.Surroundings
  /-- How the names of hosts are converted. -/
  hostNames : Url.Host.Conversion
  /-- The database at an address. -/
  database : Url → Bolt.Server σ
  /-- The way to a remote provider of vectors. -/
  exchange : Embedding.Request → Option Embedding.Reply
  /-- The time of each write. -/
  clock : Nat → String
  /-- The time that a run takes, as text. -/
  elapsed : String

/-- What the program did. -/
structure Outcome where
  /-- Why it failed, if it did: the last failure first, then what led to it. -/
  errors : List String := []
  /-- What it printed. -/
  output : String := ""
  /-- What it reported. -/
  events : List Event := []
  deriving DecidableEq, Repr

namespace Outcome

/-- The exit code. -/
def exitCode (o : Outcome) : Nat := if o.errors.isEmpty then 0 else 1

/-- The outcome with earlier events. -/
def after (events : List Event) (o : Outcome) : Outcome := { o with events := events ++ o.events }

/-- The outcome of a failure. -/
def failed (f : Failure) : Outcome := { errors := f.chain }

end Outcome

/-! ## Settings -/

/-- The settings that the program finds, with those that the arguments give. -/
def settings (args : Arguments) (s : Config.Surroundings) : Except Failure Config.Settings := do
  let found ← Config.load s
  let chosen := { found with ingest := { found.ingest with
    root := args.root.getD found.ingest.root } }
  chosen.validate
  return chosen

/-! ## Events -/

namespace Event

/-- The settings are there. -/
def loaded : Event := ⟨.debug, "treeline::cli", "Loaded configuration"⟩

/-- Where the vectors come from. -/
def provider : Embedding.Provider → Event
  | .remote _ => ⟨.info, "treeline::services::embedding", "Using remote embedding provider"⟩
  | .offline _ => ⟨.warn, "treeline::services::embedding",
      "No embedding API key configured; using deterministic offline vectors"⟩

/-- A database is looked for. -/
def connecting (uri : String) : Event := ⟨.info, "treeline::cli", s!"Connecting to Neo4j at {uri}"⟩

/-- A database is there. -/
def connected : Event := ⟨.info, "treeline::cli", "Connected to Neo4j"⟩

/-- The graph is kept in memory during a run. -/
def memoryRun : Event :=
  ⟨.info, "treeline::cli::ingest", "Memory backend selected; nothing will be persisted"⟩

/-- The graph is kept in memory while it is set up. -/
def memorySchema : Event :=
  ⟨.info, "treeline::cli::init", "Memory backend selected; schema exists only for this process"⟩

/-- The store is set up. -/
def schemaBegun : Event := ⟨.info, "treeline::cli::init", "Ensuring schema constraints..."⟩

/-- The store has been set up. -/
def schemaReady : Event := ⟨.info, "treeline::cli::init", "Schema ready"⟩

/-- The constraints are set. -/
def constraints : Event :=
  ⟨.debug, "treeline::repositories::code_graph", "Schema constraints in place"⟩

/-- An event of a run. -/
def ofRun (level : Level) (text : String) : Event := ⟨level, "treeline::services::pipeline", text⟩

/-- What is reported about the files of a run. -/
def ofParsing (p : Ingest.Parsing) : List Event :=
  ofRun .info "Parsing" :: p.parsed.map (fun _ => ofRun .debug "Parsed")
    ++ p.skipped.map (fun _ => ofRun .warn "Skipping file")

/-- A failure of the store inside a transaction. -/
def brokenOff : Failure → List Event
  | .write _ (.connection _) => []
  | .write .. => [⟨.error, "treeline::repositories::code_graph", "File batch failed, rolling back"⟩]
  | _ => []

/-- What is reported about the writing of a run. -/
def ofProgress (parsing : Ingest.Parsing) (p : Ingest.Progress) : List Event :=
  ofRun .info "Embedding and upserting"
    :: (parsing.parsed.filter fun f => f.entities.isEmpty).map (fun _ => ofRun .debug "No entities")
    ++ List.replicate p.batches (ofRun .debug "Flushing batch")
    ++ List.replicate p.groups
      ⟨.debug, "treeline::repositories::code_graph", "Committed file batch"⟩

/-- What is reported about a run after its files have been found. -/
def ofReport (r : Ingest.Report) (elapsed : String) : List Event :=
  (if r.ready then
    constraints :: ofParsing r.parsing
      ++ if r.parsing.fatal.isNone then ofProgress r.parsing r.progress else []
  else [])
    ++ match r.result with
      | .ok () => [ofRun .info (r.summary.text elapsed)]
      | .error f => brokenOff f ++ [ofRun .error "Ingestion aborted"]

/-- The size of the graph. -/
def ofStats (s : Stats) : List Event :=
  ⟨.info, "treeline::cli::ingest", s!"Graph now holds {s.text}"⟩
    :: if 0 < s.violations then
      [⟨.warn, "treeline::cli::ingest", "Entities without exactly one owning file"⟩]
    else []

end Event

/-! ## Commands -/

variable {σ ρ τ : Type}

/-- The store is set up. -/
def setUp (store : Store ρ τ) (s : ρ) : Outcome × ρ :=
  match Repository.ensureSchema store s with
  | (.error f, s) =>
    ({ errors := ["Schema setup failed: " ++ f.message], events := [.schemaBegun] }, s)
  | (.ok (), s) => ({ events := [.schemaBegun, .constraints, .schemaReady] }, s)

/-- A run, after which the graph is measured. -/
def ingest (w : World σ) (settings : Config.Settings) (store : Store ρ τ) (s : ρ) : Outcome × ρ :=
  let embedder := (Embedding.Provider.ofSettings settings.embedding).embedder w.hostNames w.exchange
  let scanning := Event.ofRun .info "Scanning"
  match Ingest.run store embedder w.clock w.surroundings.tree w.surroundings.directory
      settings.ingest s with
  | (.error f, s) =>
    ((Outcome.failed f).after [scanning, Event.ofRun .error "Discovery failed"], s)
  | (.ok report, s) =>
    let events := scanning
      :: ⟨.debug, "treeline::services::discovery", "Discovered source files"⟩
      :: Event.ofReport report w.elapsed
    match report.result with
    | .error f => ((Outcome.failed f).after events, s)
    | .ok () =>
      match Repository.stats store s with
      | (.error f, s) => ((Outcome.failed f).after events, s)
      | (.ok stats, s) =>
        ({ output := report.summary.text w.elapsed ++ "\n", events := events ++ Event.ofStats stats },
          s)

/-- Something done with the store that the settings describe, after the events `inMemory` if that store
is in memory. -/
def withStore (w : World σ) (settings : Config.GraphSettings) (inMemory : List Event)
    (act : {ρ τ : Type} → Store ρ τ → ρ → Outcome × ρ) (s : σ) : Outcome × σ :=
  match settings.backend with
  | .memory => ((act Memory.store {}).1.after inMemory, s)
  | .neo4j =>
    match Bolt.connect w.hostNames settings.uri with
    | .error f =>
      ({ errors := ["Failed to connect: " ++ f.message], events := [.connecting settings.uri] }, s)
    | .ok url =>
      let login : Bolt.Login := ⟨settings.user, settings.password.getD ""⟩
      let start : Bolt.Client σ := { server := s }
      let (outcome, client) := act (Bolt.store (w.database url) login) start
      (outcome.after [.connecting settings.uri, .connected], client.server)

/-- The program, given its arguments. -/
def run (args : Arguments) (w : World σ) (s : σ) : Outcome × σ :=
  match settings args w.surroundings with
  | .error f => (.failed f, s)
  | .ok settings =>
    match args.command with
    | some .init =>
      let (outcome, s) := withStore w settings.graph [.memorySchema] setUp s
      (outcome.after [.loaded], s)
    | none =>
      let provider := Embedding.Provider.ofSettings settings.embedding
      let (outcome, s) := withStore w settings.graph [.memoryRun] (ingest w settings) s
      (outcome.after [.loaded, .provider provider], s)

/-- How the program ends: with an exit code, after printing and reporting. -/
structure Ending where
  /-- The exit code. -/
  exitCode : Nat
  /-- What it printed. -/
  output : String
  /-- Why it failed, if it did. -/
  errors : List String
  /-- What it reported and the filter let through. -/
  events : List Event
  deriving DecidableEq, Repr

/-- The variable that holds the filter of the log. -/
def filterVariable : String := "RUST_LOG"

/-- The program, given the words of its command line. -/
def launch (words : List String) (w : World σ) (s : σ) : Ending × σ :=
  match Arguments.parse words with
  | .error u => (⟨u.exitCode, u.text?.getD "", [], []⟩, s)
  | .ok args =>
    let filter := Filter.choose (w.surroundings.env? filterVariable) args.verbose
    let (outcome, s) := run args w s
    (⟨outcome.exitCode, outcome.output, outcome.errors, outcome.events.filter filter.admits⟩, s)

end CodeAtlas.App
