import CodeAtlas.Graph.Repository

/-!
# Grouping by file

A batch of entities may come from several files.  It is written one file at a time: the files in the
order in which they first appear, and the entities of a file in the order of the batch.

## Main definitions

* `CodeAtlas.Ingest.Item` — an entity of a file with its vector.
* `CodeAtlas.Ingest.groupByFile` — a batch, by file.
-/

namespace CodeAtlas.Ingest

/-- An entity of a file with its vector. -/
structure Item where
  /-- The path of the file. -/
  path : String
  /-- The entity and its vector. -/
  content : Graph.Embedded
  deriving DecidableEq, Repr

/-- The entities of one file. -/
abbrev Group := String × List Graph.Embedded

/-- The groups with one more item, at the end of the group of its file. -/
def addToGroup (item : Item) : List Group → List Group
  | [] => [(item.path, [item.content])]
  | (path, contents) :: rest =>
    if path = item.path then (path, contents ++ [item.content]) :: rest
    else (path, contents) :: addToGroup item rest

/-- A batch by file. -/
def groupByFile (batch : List Item) : List Group :=
  batch.foldl (fun groups item => addToGroup item groups) []

end CodeAtlas.Ingest
