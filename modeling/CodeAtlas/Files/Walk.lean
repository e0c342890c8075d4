import CodeAtlas.Files.Ignore

/-!
# Walks

A walk lists the files below a directory by their paths.  Everything in a directory comes before the later siblings
of the directory, and siblings come in the order that the walk is given for their names.  Links are not followed,
hidden and ignored entries are passed over, and so is what is below a directory that the walk is told not to enter.

## Main definitions

* `CodeAtlas.Files.Walker` — what a walk is given.
* `CodeAtlas.Files.inOrder` — siblings in order.
* `CodeAtlas.Files.walk` — the files of an entry.
* `CodeAtlas.Files.walkAll` — the files below a directory.
* `CodeAtlas.Files.scopeAt` — the rules that hold in a directory.
-/

namespace CodeAtlas.Files

/-- What a walk is given. -/
structure Walker where
  /-- The order of names in a directory. -/
  compare : String → String → Ordering
  /-- The directory at a path is not entered. -/
  prunes : String → Bool

/-- Siblings in the order of their names. -/
def inOrder {α : Type} (compare : String → String → Ordering) (siblings : List (Name × α)) : List (Name × α) :=
  siblings.mergeSort fun a b => (compare a.1 b.1).isLE

mutual

/-- The paths of the files in an entry named `name` of the directory at `place`, whose path is `parent`. -/
def walk (root : Entry) (w : Walker) (scope : Ignore.Scope) (place : List String) (parent name : String) :
    Entry → List String
  | .link _ => []
  | .file _ => if Ignore.skips scope name false then [] else [Path.join parent name]
  | .directory entries =>
    let path := Path.join parent name
    if Ignore.skips scope name true || w.prunes path then []
    else
      let place := place ++ [name]
      (inOrder w.compare (walkEach root w (scope.enter name (.read root place)) place path entries)).flatMap
        Prod.snd

/-- The paths of the files in each of some entries of the directory at `place`. -/
def walkEach (root : Entry) (w : Walker) (scope : Ignore.Scope) (place : List String) (parent : String) :
    List (Name × Entry) → List (Name × List String)
  | [] => []
  | (name, e) :: rest =>
    (name, walk root w scope place parent name e) :: walkEach root w scope place parent rest

end

/-- The paths of the files below the directory at `place`, which has the path `parent` and these entries. -/
def walkAll (root : Entry) (w : Walker) (scope : Ignore.Scope) (place : List String) (parent : String)
    (entries : List (Name × Entry)) : List String :=
  (inOrder w.compare (walkEach root w scope place parent entries)).flatMap Prod.snd

/-- The scope of the directory reached from the one at `place`, whose scope is `scope`, by the names of
`way`. -/
def descend (root : Entry) (scope : Ignore.Scope) (place : List String) :
    List String → Ignore.Scope
  | [] => scope
  | name :: way =>
    let place := place ++ [name]
    descend root (scope.enter name (.read root place)) place way

/-- The scope of the directory at a place: its own rules and those of all directories above it. -/
def scopeAt (root : Entry) (place : List String) : Ignore.Scope :=
  descend root [(.read root [], "")] [] place

end CodeAtlas.Files
