import CodeAtlas.Entity.Source
import CodeAtlas.Files.Path

/-!
# Trees of files

A tree of files is a value: a directory has named entries, which are files, symbolic links or
directories again.  Every name is one that an entry can have.  The entries of a directory come in no
particular order.

## Main definitions

* `CodeAtlas.Files.Entry` — an entry of a tree.
* `CodeAtlas.Files.Entry.at?` — the entry at a place.
* `CodeAtlas.Files.Entry.put`, `CodeAtlas.Files.Entry.remove` — changes at a place.
* `CodeAtlas.Files.Entry.resolve?` — the place a path leads to when links are followed.
-/

namespace CodeAtlas.Files

/-- An entry of a tree of files. -/
inductive Entry where
  /-- A regular file. -/
  | file (content : Entity.Source)
  /-- A symbolic link. -/
  | link (target : String)
  /-- A directory with its entries. -/
  | directory (entries : List (Name × Entry))

namespace Entry

instance : Inhabited Entry := ⟨.directory []⟩

/-- The tree without any entry. -/
def empty : Entry := .directory []

/-- The entry is a directory. -/
def isDirectory : Entry → Bool
  | .directory _ => true
  | _ => false

/-- The entries of a directory; nothing else has any. -/
def entries : Entry → List (Name × Entry)
  | .directory entries => entries
  | _ => []

/-- The entry with a name in a directory. -/
def child? (name : String) (e : Entry) : Option Entry :=
  (e.entries.find? fun entry => entry.1.val = name).map Prod.snd

/-- The entry at a place, given by the names on the way from the root. -/
def at? : List String → Entry → Option Entry
  | [], e => some e
  | name :: rest, e =>
    match e.child? name with
    | some c => c.at? rest
    | none => none

/-- The entries of a directory with `e` under a name. -/
def replace (name : Name) (e : Entry) : List (Name × Entry) → List (Name × Entry)
  | [] => [(name, e)]
  | entry :: rest => if entry.1 = name then (name, e) :: rest else entry :: replace name e rest

/-- The tree with `new` at a place, if entries can have the names on the way.  Directories on the way are made;
anything else on the way is replaced. -/
def put (new : Entry) : List String → Entry → Entry
  | [], _ => new
  | name :: rest, e =>
    if h : Path.IsName name then
      let old := (e.child? name).getD empty
      .directory (replace ⟨name, h⟩ (put new rest old) e.entries)
    else e

/-- The tree with a directory at a place, which keeps its entries if it is there. -/
def putDirectory (place : List String) (e : Entry) : Entry :=
  match e.at? place with
  | some (.directory _) => e
  | _ => put empty place e

/-- The tree without the entry at a place. -/
def remove : List String → Entry → Entry
  | [], e => e
  | [name], .directory entries => .directory (entries.filter fun entry => entry.1.val ≠ name)
  | name :: rest, .directory entries =>
    .directory (entries.map fun entry => if entry.1.val = name then (entry.1, entry.2.remove rest) else entry)
  | _, e => e

/-- The greatest number of links followed on the way to an entry. -/
def maxLinks : Nat := 40

/-- The place that components lead to from the place `here` (innermost name first), and the entry there,
when at most `links` links are followed. -/
def follow (root : Entry) (links : Nat) (here : List String) (way : List Path.Component) :
    Option (List String × Entry) :=
  match way with
  | [] => (root.at? here.reverse).map (here.reverse, ·)
  | .root :: rest => follow root links [] rest
  | .current :: rest => follow root links here rest
  | .parent :: rest => follow root links here.tail rest
  | .name n :: rest =>
    match root.at? (n :: here).reverse with
    | none => none
    | some (.link target) =>
      match links with
      | 0 => none
      | links + 1 => follow root links here (Path.components target ++ rest)
    | some (.file content) =>
      if rest.isEmpty then some ((n :: here).reverse, .file content) else none
    | some (.directory _) => follow root links (n :: here) rest
termination_by (links, way.length)

/-- The place that a path leads to from the directory at the place `base`, and the entry there. -/
def resolve? (root : Entry) (base : List String) (path : String) :
    Option (List String × Entry) :=
  if path.isEmpty then none
  else follow root maxLinks base.reverse (Path.components path)

/-- The contents of the file that a path leads to. -/
def read? (root : Entry) (base : List String) (path : String) : Option Entity.Source :=
  match root.resolve? base path with
  | some (_, .file content) => some content
  | _ => none

end Entry

end CodeAtlas.Files
