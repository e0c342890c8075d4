import CodeAtlas.Text.Blank

/-!
# Statements

The statements that the program sends to a graph store.  A store that keeps the graph itself need
understand no others.

## Main definitions

* `CodeAtlas.Graph.Statement` — the statements.
* `CodeAtlas.Graph.Statement.text` — what is sent.
* `CodeAtlas.Graph.Statement.ofText?` — the statement that a text is.
-/

namespace CodeAtlas.Graph

/-- A statement of the program. -/
inductive Statement where
  /-- The paths of files are unique. -/
  | uniqueFiles
  /-- The identities of entities are unique. -/
  | uniqueEntities
  /-- A file is there, and dated when it is new. -/
  | upsertFile
  /-- An entity is there, with new properties and its old date, and its file contains it. -/
  | upsertEntity
  /-- The number of files. -/
  | countFiles
  /-- The number of entities. -/
  | countEntities
  /-- The number of containment edges. -/
  | countContains
  /-- The number of entities that are not contained by exactly the file they name. -/
  | countViolations
  /-- The properties of an entity. -/
  | findEntity
  /-- The identities of the entities of a file. -/
  | entityUids
  deriving DecidableEq, Repr

namespace Statement

/-- All statements. -/
def all : List Statement :=
  [.uniqueFiles, .uniqueEntities, .upsertFile, .upsertEntity, .countFiles, .countEntities,
   .countContains, .countViolations, .findEntity, .entityUids]

/-- The statements that set up the store, in order. -/
def schema : List Statement := [.uniqueFiles, .uniqueEntities]

/-- The text of a statement. -/
def text : Statement → String
  | .uniqueFiles =>
    "CREATE CONSTRAINT sourcefile_path IF NOT EXISTS FOR (f:SourceFile) REQUIRE f.path IS UNIQUE"
  | .uniqueEntities =>
    "CREATE CONSTRAINT entity_uid IF NOT EXISTS FOR (e:Entity) REQUIRE e.uid IS UNIQUE"
  | .upsertFile =>
    "MERGE (f:SourceFile \x7bpath: $path\x7d) ON CREATE SET f.created = $now"
  | .upsertEntity =>
    "MATCH (f:SourceFile \x7bpath: $path\x7d) MERGE (e:Entity \x7buid: $uid\x7d) "
      ++ "ON CREATE SET e.created = $now WITH f, e, e.created AS created SET e = $props "
      ++ "SET e.uid = $uid, e.created = created MERGE (f)-[:CONTAINS]->(e)"
  | .countFiles => "MATCH (f:SourceFile) RETURN count(f) AS count"
  | .countEntities => "MATCH (e:Entity) RETURN count(e) AS count"
  | .countContains => "MATCH (:SourceFile)-[r:CONTAINS]->(:Entity) RETURN count(r) AS count"
  | .countViolations =>
    "MATCH (e:Entity) OPTIONAL MATCH (f:SourceFile)-[:CONTAINS]->(e) "
      ++ "WITH e, collect(f.path) AS owners WHERE size(owners) <> 1 OR owners[0] <> e.path "
      ++ "RETURN count(e) AS count"
  | .findEntity => "MATCH (e:Entity \x7buid: $uid\x7d) RETURN properties(e) AS entity"
  | .entityUids =>
    "MATCH (:SourceFile \x7bpath: $path\x7d)-[:CONTAINS]->(e:Entity) "
      ++ "RETURN e.uid AS uid ORDER BY uid"

/-- The name of a statement. -/
def name : Statement → String
  | .uniqueFiles => "SCHEMA_0"
  | .uniqueEntities => "SCHEMA_1"
  | .upsertFile => "UPSERT_FILE"
  | .upsertEntity => "UPSERT_ENTITY"
  | .countFiles => "COUNT_FILES"
  | .countEntities => "COUNT_ENTITIES"
  | .countContains => "COUNT_CONTAINS"
  | .countViolations => "COUNT_CONTAINMENT_VIOLATIONS"
  | .findEntity => "FIND_ENTITY"
  | .entityUids => "ENTITY_UIDS_FOR_FILE"

/-- The statement changes the graph. -/
def isWrite : Statement → Bool
  | .uniqueFiles | .uniqueEntities | .upsertFile | .upsertEntity => true
  | _ => false

/-- The statement with a name. -/
def ofName? (s : String) : Option Statement := all.find? fun x => x.name = s

/-- The statement that a text is, apart from surrounding blanks. -/
def ofText? (s : String) : Option Statement :=
  let trimmed := Text.trim s
  all.find? fun x => x.text = trimmed

/-- How a log names a text that may be a statement. -/
def label (s : String) : String :=
  match all.find? fun x => x.text = s with
  | some x => x.name
  | none => s

end Statement

end CodeAtlas.Graph
