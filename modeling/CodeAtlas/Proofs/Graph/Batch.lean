import CodeAtlas.Graph.Repository
import CodeAtlas.Proofs.Graph.Contents
import CodeAtlas.Proofs.Graph.Statement

/-!
# The batch of a file

Storing some entities of a file takes one statement for the file and one for each entity.  Here is what
these statements come to when they are applied in order.

## Main definitions

* `CodeAtlas.Graph.Memory.Contents.putEmbedded`, `CodeAtlas.Graph.Memory.Contents.putBatch` — an entity
  and a batch of entities of a file, stored.
* `CodeAtlas.Graph.Repository.fileWrites` — the statements of a batch with their parameters.

## Main results

* `CodeAtlas.Graph.Repository.fileQueries_eq` — these are the queries that the repository sends.
* `CodeAtlas.Graph.Repository.applyAll_fileWrites` — applied in order they store the batch, and none of
  them fails.
-/

namespace CodeAtlas.Graph

namespace Memory.Contents

/-- The contents with an entity of a file, as the repository stores it. -/
def putEmbedded (c : Contents) (now path : String) (e : Embedded) : Contents :=
  c.putEntity path (e.1.uid path) (.str now) (e.1.properties path e.2)

/-- The contents with a file and some of its entities. -/
def putBatch (c : Contents) (now path : String) (entities : List Embedded) : Contents :=
  entities.foldl (fun c e => c.putEmbedded now path e) (c.putFile path (.str now))

/-- Storing an entity leaves the files alone. -/
@[simp] lemma files_putEmbedded (c : Contents) (now path : String) (e : Embedded) :
    (c.putEmbedded now path e).files = c.files :=
  files_putEntity c path _ _ _

end Memory.Contents

/-- The query of a statement with its parameters. -/
def Query.ofWrite (w : Statement × Params) : Query := { text := w.1.text, params := w.2 }

/-- What sending it does. -/
lemma Query.run_ofWrite {σ : Type} (e : Executor σ) (w : Statement × Params) :
    (ofWrite w).run e = e.run w.1.text w.2 := rfl

namespace Repository

open Memory (Contents)

/-- The statements that store a file and some of its entities, in order. -/
def fileWrites (path now : String) (entities : List Embedded) : List (Statement × Params) :=
  (.upsertFile, (fileQuery path now).params) ::
    entities.map fun e => (.upsertEntity, (entityQuery path now e).params)

/-- They are what the repository sends. -/
theorem fileQueries_eq (path now : String) (entities : List Embedded) :
    fileQueries path now entities = (fileWrites path now entities).map Query.ofWrite := by
  rw [fileQueries, fileWrites, List.map_cons, List.map_map]
  rfl

/-- All of them write. -/
theorem isWrite_of_mem_fileWrites {path now : String} {entities : List Embedded}
    {w : Statement × Params} (h : w ∈ fileWrites path now entities) : w.1.isWrite = true := by
  rw [fileWrites, List.mem_cons, List.mem_map] at h
  rcases h with rfl | ⟨e, -, rfl⟩ <;> rfl

/-- The parameters of the statement of a file. -/
lemma get?_fileQuery (path now key : String) :
    (fileQuery path now).params.get? key =
      if key = "now" then some (.str now) else if key = "path" then some (.str path) else none := by
  simp only [fileQuery, query, Query.string, Query.param, Query.raw, Table.get?_insert, Table.get?]

/-- The parameters of the statement of an entity. -/
lemma get?_entityQuery (path now key : String) (e : Embedded) :
    (entityQuery path now e).params.get? key =
      if key = "props" then some (.obj (e.1.properties path e.2))
      else if key = "now" then some (.str now)
      else if key = "uid" then some (.str (e.1.uid path))
      else if key = "path" then some (.str path)
      else none := by
  simp only [entityQuery, query, Query.string, Query.param, Query.raw, Table.get?_insert, Table.get?]

/-- All of them name the path of the file. -/
theorem path_of_mem_fileWrites {path now : String} {entities : List Embedded}
    {w : Statement × Params} (h : w ∈ fileWrites path now entities) :
    w.2.get? "path" = some (.str path) := by
  rw [fileWrites, List.mem_cons, List.mem_map] at h
  rcases h with rfl | ⟨e, -, rfl⟩
  · simp [get?_fileQuery]
  · simp [get?_entityQuery]

/-- The statement of a file stores it. -/
lemma apply_fileQuery (c : Contents) (path now : String) :
    c.apply .upsertFile (fileQuery path now).params = .ok (c.putFile path (.str now)) := by
  rw [Contents.apply, Memory.textParam, Memory.valueParam, get?_fileQuery, get?_fileQuery]
  simp only [String.reduceEq, if_false, if_true]
  rfl

/-- The statement of an entity stores it. -/
lemma apply_entityQuery (c : Contents) (path now : String) (e : Embedded) :
    c.apply .upsertEntity (entityQuery path now e).params = .ok (c.putEmbedded now path e) := by
  rw [Contents.apply, Memory.textParam, Memory.textParam, Memory.valueParam, Memory.tableParam,
    get?_entityQuery, get?_entityQuery, get?_entityQuery, get?_entityQuery]
  simp only [String.reduceEq, if_false, if_true]
  rfl

/-- The statements of entities store them one after the other. -/
lemma applyAll_entityQueries (c : Contents) (path now : String) (entities : List Embedded) :
    c.applyAll (entities.map fun e => (.upsertEntity, (entityQuery path now e).params)) =
      .ok (entities.foldl (fun c e => c.putEmbedded now path e) c) := by
  induction entities generalizing c with
  | nil => rfl
  | cons e rest ih =>
    rw [List.map_cons, Contents.applyAll, apply_entityQuery]
    exact ih _

/-- **Applied in order, the statements of a batch store it.** -/
theorem applyAll_fileWrites (c : Contents) (path now : String) (entities : List Embedded) :
    c.applyAll (fileWrites path now entities) = .ok (c.putBatch now path entities) := by
  rw [fileWrites, Contents.applyAll, apply_fileQuery]
  exact applyAll_entityQueries _ path now entities

end Repository

end CodeAtlas.Graph
