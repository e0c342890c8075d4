import CodeAtlas.Entity.Source
import CodeAtlas.Files.Discovery

/-!
# Reading and parsing the files of a run

A file that cannot be read, or that its grammar does not accept, costs a run only that file.  Any other failure
would end the run at this file.

## Main definitions

* `CodeAtlas.Ingest.Input` — a file that a run is given.
* `CodeAtlas.Ingest.Input.parse` — its entities.
* `CodeAtlas.Ingest.Parsing` — what became of all files.
-/

namespace CodeAtlas.Ingest

/-- A file that a run is given. -/
structure Input where
  /-- The path under which it is stored. -/
  path : String
  /-- The path by which it is opened. -/
  absolute : String
  /-- Its language and grammar. -/
  dialect : Dialect
  /-- Its contents, or why they cannot be read. -/
  source : Except String Entity.Source

/-- A file that parsed, with its entities in order. -/
structure Parsed where
  /-- The path under which it is stored. -/
  path : String
  /-- Its entities. -/
  entities : List Entity
  deriving DecidableEq, Repr

namespace Input

/-- The entities of a file. -/
def parse (i : Input) : Except Failure Parsed :=
  match i.source with
  | .error reason => .error (.read i.absolute reason)
  | .ok source =>
    match Entity.Source.entities i.absolute i.dialect source with
    | .error f => .error f
    | .ok entities => .ok ⟨i.path, entities⟩

/-- Why the contents of the file at a path cannot be read. -/
def unreadable (tree : Files.Entry) (base : List String) (path : String) : String :=
  match tree.resolve? base path with
  | some _ => "Is a directory (os error 21)"
  | none => "No such file or directory (os error 2)"

/-- A file that was found in a tree. -/
def ofFound (tree : Files.Entry) (base : List String) (f : Files.Found) : Input where
  path := f.path
  absolute := f.absolute
  dialect := f.dialect
  source :=
    match tree.read? base f.absolute with
    | some source => .ok source
    | none => .error (unreadable tree base f.absolute)

end Input

/-- What became of the files of a run. -/
structure Parsing where
  /-- The files that parsed, in order. -/
  parsed : List Parsed := []
  /-- The failures of those that did not and were skipped, in order. -/
  skipped : List Failure := []
  /-- The failure that ended the parsing, if one did. -/
  fatal : Option Failure := none

/-- What became of some files, up to the first failure that concerns more than one file. -/
def parseAll : List Input → Parsing
  | [] => {}
  | i :: rest =>
    match i.parse with
    | .ok p =>
      let later := parseAll rest
      { later with parsed := p :: later.parsed }
    | .error f =>
      if f.recoverable then
        let later := parseAll rest
        { later with skipped := f :: later.skipped }
      else { fatal := some f }

end CodeAtlas.Ingest
