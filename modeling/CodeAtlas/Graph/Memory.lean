import CodeAtlas.Graph.Statement
import CodeAtlas.Graph.Store

/-!
# The graph in memory

A store that keeps the graph itself.  It understands the program's own statements and refuses any other
text.  Writes inside a transaction wait until the transaction is committed, and are then applied all or
none; a read inside a transaction sees the graph as if they had been applied.

Writes to chosen paths can be made to fail.

## Main definitions

* `CodeAtlas.Graph.Memory.Contents` — files, entities and containment edges.
* `CodeAtlas.Graph.Memory.Contents.apply`, `CodeAtlas.Graph.Memory.Contents.read` — the effect and the
  answer of a statement.
* `CodeAtlas.Graph.Memory` — the contents together with the failing paths.
* `CodeAtlas.Graph.Memory.store` — the store.
-/

namespace CodeAtlas.Graph

/-- A file contains an entity: the path of the file and the identity of the entity. -/
abbrev Edge := String × String

/-- The order of edges: by path, then by identity. -/
def Edge.before (a b : Edge) : Bool := a.1 < b.1 || (a.1 == b.1 && a.2 < b.2)

/-- The edges with one more, in order and without repetition. -/
def Edge.insert (e : Edge) : List Edge → List Edge
  | [] => [e]
  | d :: rest =>
    if d.before e then d :: Edge.insert e rest
    else if d = e then d :: rest
    else e :: d :: rest

namespace Memory

/-- What the graph holds. -/
structure Contents where
  /-- When each file was first stored, by path. -/
  files : Table Json := []
  /-- The properties of each entity, by identity. -/
  entities : Table (Table Json) := []
  /-- Which file contains which entity, in order. -/
  contains : List Edge := []
  deriving Inhabited, Repr, BEq

/-- A parameter that must be there. -/
def valueParam (params : Params) (name : String) : Except Failure Json :=
  match params.get? name with
  | some v => .ok v
  | none => .error (.internal s!"missing parameter '{name}'")

/-- A parameter that must be a text. -/
def textParam (params : Params) (name : String) : Except Failure String :=
  match params.get? name with
  | some (.str s) => .ok s
  | _ => .error (.internal s!"parameter '{name}' must be a string")

/-- A parameter that must be a table. -/
def tableParam (params : Params) (name : String) : Except Failure (Table Json) :=
  match params.get? name with
  | some (.obj fields) => .ok fields
  | _ => .error (.internal s!"parameter '{name}' must be a map")

namespace Contents

/-- The contents with a file, which keeps its date if it is known. -/
def putFile (c : Contents) (path : String) (now : Json) : Contents :=
  if c.files.contains path then c else { c with files := c.files.insert path now }

/-- When an entity was first stored, or `now`. -/
def createdOr (c : Contents) (uid : String) (now : Json) : Json :=
  ((c.entities.get? uid).bind fun node => node.get? "created").getD now

/-- The contents with an entity in a file.  All its properties are replaced except for its date.  Without
the file nothing changes. -/
def putEntity (c : Contents) (path uid : String) (now : Json) (props : Table Json) : Contents :=
  if c.files.contains path then
    let node := (props.insert "uid" (.str uid)).insert "created" (c.createdOr uid now)
    { c with entities := c.entities.insert uid node, contains := Edge.insert (path, uid) c.contains }
  else c

/-- The contents after a statement that writes. -/
def apply (c : Contents) (statement : Statement) (params : Params) : Except Failure Contents :=
  match statement with
  | .uniqueFiles | .uniqueEntities => .ok c
  | .upsertFile => do
    let path ← textParam params "path"
    let now ← valueParam params "now"
    return c.putFile path now
  | .upsertEntity => do
    let path ← textParam params "path"
    let uid ← textParam params "uid"
    let now ← valueParam params "now"
    let props ← tableParam params "props"
    return c.putEntity path uid now props
  | _ => .error (.internal s!"{statement.name} is not a write")

/-- The contents after several statements that write. -/
def applyAll (c : Contents) : List (Statement × Params) → Except Failure Contents
  | [] => .ok c
  | (statement, params) :: rest =>
    match c.apply statement params with
    | .error f => .error f
    | .ok c => c.applyAll rest

/-- The paths of the files that contain an entity. -/
def owners (c : Contents) (uid : String) : List String :=
  (c.contains.filter fun e => e.2 = uid).map Prod.fst

/-- The path that an entity names as its own. -/
def recordedPath (node : Table Json) : Option String :=
  match node.get? "path" with
  | some (.str s) => some s
  | _ => none

/-- The entity is contained by exactly one file, which is the one it names. -/
def isContained (c : Contents) (uid : String) (node : Table Json) : Bool :=
  match c.owners uid with
  | [owner] => recordedPath node = some owner
  | _ => false

/-- The number of entities that are not contained as they should be. -/
def violations (c : Contents) : Nat :=
  (c.entities.filter fun e => !c.isContained e.1 e.2).length

/-- The identities of the entities that a file contains, in order. -/
def uidsOf (c : Contents) (path : String) : List String :=
  (c.contains.filter fun e => e.1 = path).map Prod.snd

/-- A row with a count. -/
def countRow (n : Nat) : List Row := [.single "count" (.int n)]

/-- The rows that answer a statement. -/
def read (c : Contents) (statement : Statement) (params : Params) : Except Failure (List Row) :=
  match statement with
  | .countFiles => .ok (countRow c.files.length)
  | .countEntities => .ok (countRow c.entities.length)
  | .countContains => .ok (countRow c.contains.length)
  | .countViolations => .ok (countRow c.violations)
  | .findEntity => do
    let uid ← textParam params "uid"
    match c.entities.get? uid with
    | some node => return [.single "entity" (.obj node)]
    | none => return []
  | .entityUids => do
    let path ← textParam params "path"
    return (c.uidsOf path).map fun uid => .single "uid" (.str uid)
  | _ => .ok []

end Contents

end Memory

/-- The graph in memory. -/
structure Memory where
  /-- What the graph holds. -/
  contents : Memory.Contents := {}
  /-- The paths to which no write succeeds. -/
  failing : List String := []
  deriving Inhabited

namespace Memory

/-- The writes of a transaction that wait for its commit, in order. -/
abbrev Pending := List (Statement × Params)

/-- From now on every write to `path` fails. -/
def failWritesFor (path : String) (m : Memory) : Memory :=
  { m with failing := path :: m.failing }

/-- The statement that a text is, which must be one of the program's own. -/
def recognize (text : String) : Except Failure Statement :=
  match Statement.ofText? text with
  | some s => .ok s
  | none => .error (.query "statement not supported by the memory backend" (Text.trim text))

/-- The failure of a write to one of the failing paths. -/
def checkPath (m : Memory) (text : String) (params : Params) : Except Failure Unit :=
  match params.get? "path" with
  | some (.str path) =>
    if m.failing.contains path then
      .error (.query s!"injected write failure for '{path}'" text)
    else .ok ()
  | _ => .ok ()

/-- A statement outside any transaction. -/
def execute (text : String) (params : Params) : Action Memory Rows := fun m =>
  match recognize text with
  | .error f => (.error f, m)
  | .ok statement =>
    if statement.isWrite then
      match m.checkPath text params with
      | .error f => (.error f, m)
      | .ok () =>
        match m.contents.apply statement params with
        | .error f => (.error f, m)
        | .ok contents => (.ok [], { m with contents })
    else
      match m.contents.read statement params with
      | .error f => (.error f, m)
      | .ok rows => (.ok (rows.map .ok), m)

/-- A statement inside a transaction. -/
def executeIn (text : String) (params : Params) : Action (Memory × Pending) Rows := fun (m, p) =>
  match recognize text with
  | .error f => (.error f, m, p)
  | .ok statement =>
    if statement.isWrite then
      match m.checkPath text params with
      | .error f => (.error f, m, p)
      | .ok () => (.ok [], m, p ++ [(statement, params)])
    else
      match m.contents.applyAll p with
      | .error f => (.error f, m, p)
      | .ok contents =>
        match contents.read statement params with
        | .error f => (.error f, m, p)
        | .ok rows => (.ok (rows.map .ok), m, p)

/-- The result of an action without its rows. -/
def discard {σ : Type} (action : Action σ Rows) : Action σ Unit := fun s =>
  match action s with
  | (.error f, s) => (.error f, s)
  | (.ok _, s) => (.ok (), s)

/-- The end of a transaction: all its writes are applied, or none and it fails. -/
def commit (p : Pending) : Action Memory Unit := fun m =>
  match m.contents.applyAll p with
  | .error f => (.error f, m)
  | .ok contents => (.ok (), { m with contents })

/-- The graph in memory as a store. -/
def store : Store Memory Pending where
  direct := ⟨execute, fun text params => discard (execute text params)⟩
  within := ⟨executeIn, fun text params => discard (executeIn text params)⟩
  start := fun m => (.ok [], m)
  commit := commit
  rollback := fun _ m => (.ok (), m)
  abandon := fun _ m => m

end Memory

end CodeAtlas.Graph
