/-!
# Paths

Paths with `/` between their components.  A path is text; what it means is a list of components, in
which empty components and `.` components do not count, except for a `.` that stands first.

## Main definitions

* `CodeAtlas.Files.Path.components` — the components of a path.
* `CodeAtlas.Files.Path.fileName?`, `CodeAtlas.Files.Path.extension?` — the last component and what
  follows its last dot.
* `CodeAtlas.Files.Path.join` — a path seen from another one.
* `CodeAtlas.Files.Path.relative` — a path as it is seen from another one.
* `CodeAtlas.Files.Name` — a name that an entry of a directory can have.
-/

namespace CodeAtlas.Files

namespace Path

/-- A component of a path. -/
inductive Component where
  /-- The root of all paths. -/
  | root
  /-- The directory itself. -/
  | current
  /-- The directory above. -/
  | parent
  /-- A named entry. -/
  | name (s : String)
  deriving DecidableEq, Repr

/-- The parts of a text between the separators, after the part begun in `part` (newest character
first). -/
def splitFrom (separator : Char) (part : List Char) : List Char → List (List Char)
  | [] => [part.reverse]
  | c :: cs =>
    if c = separator then part.reverse :: splitFrom separator [] cs
    else splitFrom separator (c :: part) cs

/-- The parts of a text between the separators. -/
def split (separator : Char) (cs : List Char) : List (List Char) := splitFrom separator [] cs

/-- The component that a part stands for, unless it stands for none. -/
def component? (part : List Char) : Option Component :=
  if part = [] ∨ part = ['.'] then none
  else if part = ['.', '.'] then some .parent
  else some (.name (String.ofList part))

/-- The components of a path. -/
def components (path : String) : List Component :=
  let parts := split '/' path.toList
  let rest := parts.filterMap component?
  match parts with
  | [] :: _ :: _ => .root :: rest
  | ['.'] :: _ => .current :: rest
  | _ => rest

/-- The path begins at the root of all paths. -/
def isAbsolute (path : String) : Bool := path.toList.head? = some '/'

/-- The text of a component. -/
def Component.text : Component → String
  | .root => "/"
  | .current => "."
  | .parent => ".."
  | .name s => s

/-- The name of the entry that a path leads to, unless it leads to a directory above. -/
def fileName? (path : String) : Option String :=
  match (components path).getLast? with
  | some (.name s) => some s
  | _ => none

/-- What follows the last dot of a name, if something stands before that dot. -/
def nameExtension? (name : String) : Option String :=
  let cs := name.toList.reverse
  let after := cs.takeWhile (· ≠ '.')
  match cs.drop after.length with
  | '.' :: _ :: _ => some (String.ofList after.reverse)
  | _ => none

/-- What follows the last dot of the name of the entry that a path leads to. -/
def extension? (path : String) : Option String := (fileName? path).bind nameExtension?

/-- The path `path` seen from `base`. -/
def join (base path : String) : String :=
  if isAbsolute path ∨ base.isEmpty then path
  else if base.toList.getLast? = some '/' then base ++ path
  else base ++ "/" ++ path

/-- The path as it is seen from `root`, with one separator between its components.  A path that does not begin with
the components of `root` is seen from where it is. -/
def relative (root path : String) : String :=
  let parts := components path
  let rest := ((components root).isPrefixOf? parts).getD parts
  "/".intercalate (rest.map Component.text)

/-- A text is a name that an entry of a directory can have: neither that of the directory itself nor that of the one
above, not empty, and without a separator. -/
def IsName (name : String) : Prop := name ≠ "" ∧ name ≠ "." ∧ name ≠ ".." ∧ '/' ∉ name.toList

instance (name : String) : Decidable (IsName name) :=
  inferInstanceAs (Decidable (name ≠ "" ∧ name ≠ "." ∧ name ≠ ".." ∧ '/' ∉ name.toList))

end Path

/-- A name that an entry of a directory can have. -/
abbrev Name := { name : String // Path.IsName name }

end CodeAtlas.Files
