import CodeAtlas.Bolt.Message
import CodeAtlas.Failure
import CodeAtlas.Graph.Store
import CodeAtlas.Url.Basic

/-!
# A graph store in a database

The graph store that a database keeps.  Connections are made when they are needed and kept for later; a
transaction has a connection of its own until it ends.  A statement outside any transaction is sent again
when the database says that it may succeed later; inside a transaction it is sent once.

## Main definitions

* `CodeAtlas.Bolt.connect` — the address is one of a database.
* `CodeAtlas.Bolt.Client` — a database with its idle connections.
* `CodeAtlas.Bolt.store` — the graph store.
-/

namespace CodeAtlas.Bolt

open CodeAtlas.Graph

/-! ## Addresses -/

/-- The schemes of databases. -/
def schemes : List String := ["bolt", "bolt+s", "bolt+ssc", "neo4j", "neo4j+s", "neo4j+ssc"]

/-- The address of a database; a text that names no host is the address without its scheme. -/
def address (convert : Url.Host.Conversion) (uri : String) : Except Url.Fault Url :=
  match Url.parse convert uri with
  | .ok u => if u.hasHost then .ok u else Url.parse convert ("bolt://" ++ uri)
  | .error .relative => Url.parse convert ("bolt://" ++ uri)
  | .error f => .error f

/-- The address that settings give, unless it is not one of a database. -/
def connect (convert : Url.Host.Conversion) (uri : String) : Except Failure Url :=
  match address convert uri with
  | .error f => .error (.connection s!"Invalid URI: {f.message}")
  | .ok u =>
    if schemes.contains u.scheme then .ok u
    else .error (.connection s!"Unsupported URI scheme: {u.scheme}")

/-! ## Connections -/

/-- Who uses the database. -/
structure Login where
  /-- The user. -/
  user : String
  /-- The password. -/
  password : String
  deriving DecidableEq, Repr

/-- A database with state `σ`, and how many connections to it are idle. -/
structure Client (σ : Type) where
  /-- The state of the database. -/
  server : σ
  /-- The number of idle connections. -/
  idle : Nat := 0

variable {σ : Type}

namespace Client

/-- A message sent and answered. -/
def send (server : Server σ) (m : Message) (c : Client σ) : Response × Client σ :=
  let (response, s) := server.answer m c.server
  (response, { c with server := s })

/-- The client with one more idle connection. -/
def release (c : Client σ) : Client σ := { c with idle := c.idle + 1 }

/-- A connection taken for use: an idle one, or else a new one that introduces itself.  The reason if it
is turned away. -/
def acquire (server : Server σ) (login : Login) (c : Client σ) : Except String Unit × Client σ :=
  if 0 < c.idle then (.ok (), { c with idle := c.idle - 1 })
  else
    match c.send server (.hello login.user login.password) with
    | (.success .., c) => (.ok (), c)
    | (.failure _ message, c) => (.error message, c)

end Client

/-! ## Statements -/

/-- The failure of a statement. -/
def refused (statement reason : String) : Failure :=
  .query s!"Cypher query failed: {reason}" statement

/-- The wording of a refusal by the database. -/
def reasonText (code message : String) : String :=
  "Neo4j error `" ++ code ++ "`: " ++ message

/-- The codes of refusals that call for another attempt although they blame the client. -/
def retriedCodes : List (List String) :=
  [["ClientError", "Security", "AuthorizationExpired"], ["ClientError", "Cluster", "NotALeader"],
   ["ClientError", "General", "ForbiddenOnReadOnlyDatabase"]]

/-- The codes of refusals that call for no other attempt although they are called transient. -/
def finalCodes : List String :=
  ["Neo.TransientError.Transaction.Terminated",
   "Neo.TransientError.Transaction.LockClientStopped"]

/-- A refusal with the code may turn into success when the statement is sent again. -/
def isTransient (code : String) : Bool :=
  if finalCodes.contains code then false
  else
    let parts := (code.splitOn ".").drop 1
    parts.head? = some "TransientError" || retriedCodes.contains (parts.take 3)

/-- The row of a record. -/
def row (fields : List String) (record : List Value) : Row :=
  ⟨Table.ofList ((fields.zip record).map fun (field, v) => (field, v.toJson))⟩

/-- The parameters of a statement on the wire. -/
def wireParams (params : Params) : List (String × Value) := Value.ofFields params

/-- The greatest number of times that a statement is sent. -/
def maxAttempts : Nat := 16

/-- A statement sent over a connection, and sent again while it may still succeed, at most so many more
times. -/
def attempt (server : Server σ) (statement : String) (params : Params) :
    Nat → Client σ → Except Failure (List Row) × Client σ
  | more, c =>
    match c.send server (.run statement (wireParams params)) with
    | (.success fields records, c) => (.ok (records.map (row fields)), c)
    | (.failure code message, c) =>
      let failed := refused statement (reasonText code message)
      match more with
      | 0 => (.error failed, c)
      | more + 1 =>
        if isTransient code then attempt server statement params more c else (.error failed, c)

/-- A statement outside any transaction, with its rows. -/
def direct (server : Server σ) (login : Login) (statement : String) (params : Params) :
    Action (Client σ) (List Row) := fun c =>
  match c.acquire server login with
  | (.error reason, c) => (.error (refused statement reason), c)
  | (.ok (), c) =>
    let (result, c) := attempt server statement params (maxAttempts - 1) c
    (result, c.release)

/-- A statement inside a transaction, with its rows. -/
def within (server : Server σ) (statement : String) (params : Params) :
    Action (Client σ × Unit) (List Row) := fun (c, t) =>
  let (result, c) := attempt server statement params 0 c
  (result, c, t)

/-- The executor of statements that have rows. -/
def executor {ρ : Type} (send : String → Params → Action ρ (List Row)) : Executor ρ where
  execute := fun statement params s =>
    let (result, s) := send statement params s
    (result.map fun rows => rows.map .ok, s)
  run := fun statement params s =>
    let (result, s) := send statement params s
    (result.map fun _ => (), s)

/-! ## Transactions -/

/-- The failure of a message that begins or ends a transaction. -/
def unexpected (m : Message) : Failure := .connection s!"unexpected response for {m.name}"

/-- The end of a transaction, after which its connection is idle. -/
def finish (server : Server σ) (m : Message) : Action (Client σ) Unit := fun c =>
  match c.send server m with
  | (.success .., c) => (.ok (), c.release)
  | (.failure .., c) => (.error (unexpected m), c.release)

/-- The graph store that a database keeps. -/
def store (server : Server σ) (login : Login) : Store (Client σ) Unit where
  direct := executor (direct server login)
  within := executor (within server)
  start := fun c =>
    match c.acquire server login with
    | (.error reason, c) => (.error (.connection reason), c)
    | (.ok (), c) =>
      match c.send server .start with
      | (.success .., c) => (.ok (), c)
      | (.failure .., c) => (.error (unexpected .start), c.release)
  commit := fun _ => finish server .commit
  rollback := fun _ => finish server .rollback
  abandon := fun _ c => c.release

end CodeAtlas.Bolt
