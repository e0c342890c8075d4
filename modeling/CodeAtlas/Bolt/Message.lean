import CodeAtlas.Bolt.Value
import CodeAtlas.Table

/-!
# Messages to a database

What a client says to a database and what the database answers, as data.  A database is any function from
messages to answers that keeps a state; a script is the database that says what it was told to say.

## Main definitions

* `CodeAtlas.Bolt.Message`, `CodeAtlas.Bolt.Response` — what is said.
* `CodeAtlas.Bolt.Server` — a database.
* `CodeAtlas.Bolt.Server.unreachable` — no database at all.
* `CodeAtlas.Bolt.Script` — a database that answers from a list.
-/

namespace CodeAtlas.Bolt

/-- What a client says. -/
inductive Message where
  /-- A new connection introduces itself. -/
  | hello (user password : String)
  /-- A statement is to be executed. -/
  | run (statement : String) (params : List (String × Value))
  /-- A transaction begins. -/
  | start
  /-- The transaction is to be kept. -/
  | commit
  /-- The transaction is to be discarded. -/
  | rollback

/-- The name of a message. -/
def Message.name : Message → String
  | .hello .. => "HELLO"
  | .run .. => "RUN"
  | .start => "BEGIN"
  | .commit => "COMMIT"
  | .rollback => "ROLLBACK"

/-- What a database answers. -/
inductive Response where
  /-- It did what it was asked; a statement has records with named fields. -/
  | success (fields : List String) (records : List (List Value))
  /-- It refuses. -/
  | failure (code message : String)
  deriving Inhabited

/-- A database with state `σ`. -/
structure Server (σ : Type) where
  /-- The answer to a message. -/
  answer : Message → σ → Response × σ

/-- Where no database is: every message comes to nothing. -/
def Server.unreachable {σ : Type} : Server σ where
  answer := fun _ s => (.failure "" "an IO error occurred: Connection refused (os error 111)", s)

/-- What a database is to answer, and what it has heard. -/
structure Script where
  /-- The answers to the statements to come. -/
  replies : List Response := []
  /-- The messages, by name, that are refused, each with a reason. -/
  refusals : Table String := []
  /-- The messages so far, the latest first. -/
  heard : List Message := []

namespace Script

/-- The answer to a message: a refusal if there is one for it, else the next answer for a statement; past
the last answer, and for any other message, an empty success. -/
def answer (m : Message) (s : Script) : Response × Script :=
  let s := { s with heard := m :: s.heard }
  match s.refusals.get? m.name with
  | some reason => (.failure "Neo.ClientError.Request.Invalid" reason, s)
  | none =>
    match m, s.replies with
    | .run .., r :: rest => (r, { s with replies := rest })
    | _, _ => (.success [] [], s)

/-- The database that follows a script. -/
def server : Server Script := ⟨answer⟩

end Script

end CodeAtlas.Bolt
