import CodeAtlas.Files.Filter
import CodeAtlas.Files.Walk

/-!
# Discovery of source files

The source files below a directory, in a stable order: siblings come by the bytes of their names.  A file is known by
its path as it is seen from the directory.  Directories below which everything seems to be excluded are not entered,
and only files of a known language that the filter admits are listed.

## Main definitions

* `CodeAtlas.Files.Found` — a source file that was found.
* `CodeAtlas.Files.compareNames` — the order of siblings.
* `CodeAtlas.Files.discover` — the source files below a directory.
-/

namespace CodeAtlas.Files

/-- A source file that was found. -/
structure Found where
  /-- The path by which it can be opened. -/
  absolute : String
  /-- The path as it is seen from the root of the search. -/
  path : String
  /-- Its language and grammar. -/
  dialect : Dialect
  deriving DecidableEq, Repr

/-- Names are compared by their bytes. -/
def compareNames (a b : String) : Ordering := compareOfLessAndEq (Text.Utf8.encode a) (Text.Utf8.encode b)

/-- A walk below the directory `root` does not enter the directory at a path. -/
def Filter.prunesBelow (filter : Filter) (root path : String) : Bool := filter.prunes (Path.relative root path)

/-- The source file at a path below `root`, if its language is known and the filter admits it. -/
def found? (filter : Filter) (root path : String) : Option Found :=
  match Dialect.ofPath? path with
  | some dialect =>
    let relative := Path.relative root path
    if filter.admits relative then some ⟨path, relative, dialect⟩ else none
  | none => none

/-- The source files below the directory `root`, seen from the directory at the place `base`. -/
def discover (tree : Entry) (base : List String) (root : String) (filter : Filter) :
    Except Failure (List Found) :=
  match tree.resolve? base root with
  | some (place, .directory entries) =>
    let w : Walker := ⟨compareNames, filter.prunesBelow root⟩
    .ok ((walkAll tree w (scopeAt tree place) place root entries).filterMap (found? filter root))
  | _ => .error (.validation s!"root {root} is not a directory")

end CodeAtlas.Files
