import CodeAtlas.App.Run
import CodeAtlas.Json.Document
import CodeAtlas.Syntax.Listing

/-!
# The command line

Gathers what the program needs to know about the files and the environment, starts it, and shows what
comes of it.

The syntax tree of a source file is read from a listing beside it, a file with the ending `.tree`.  A
source file without one counts as not accepted.  Neither a database nor a provider is within reach, so
runs keep the graph in memory.
-/

namespace CodeAtlas.Main

/-- A text in upper case. -/
def upper (s : String) : String := String.ofList (s.toList.map Char.toUpper)

/-- The names of the variables that the program looks at. -/
def variableNames : List String :=
  let named (part : String) (keys : List String) : List String :=
    keys.map fun k => upper (Config.Surroundings.variableStart ++ part ++ "__" ++ k)
  ["HOME", "XDG_CONFIG_HOME", App.filterVariable]
    ++ Config.Variable.conventions.map (fun c => upper c.1)
    ++ named "graph" Config.graphSchema.keys
    ++ named "embedding" Config.embeddingSchema.keys
    ++ named "ingest" Config.ingestSchema.keys

/-- The variables that are set. -/
def readVariables : IO (List (String × String)) := do
  let values ← variableNames.mapM fun name => do return (name, ← IO.getEnv name)
  return values.filterMap fun (name, value) => value.map (name, ·)

/-- The bytes of a file, if it can be read. -/
def readBytes (path : String) : IO (Option (List UInt8)) := do
  try return some (← IO.FS.readBinFile path).toList catch _ => return none

/-- The syntax tree that is listed beside a file. -/
def readListing (path : String) : IO (Option Syntax.Tree) := do
  match ← readBytes (path ++ ".tree") with
  | none => return none
  | some bytes => return ((Json.read bytes).bind Syntax.Listing.ofJson?).bind Syntax.Listing.tree?

/-- The names of files with rules on what to pass over, and of files with settings. -/
def ruleFiles : List String := [".gitignore", ".ignore", Config.Surroundings.projectFile]

/-- The file at a path.  The contents matter only for sources and for files with rules. -/
def readFile (path : String) : IO Files.Entry := do
  let name := (Files.Path.fileName? path).getD ""
  if (Dialect.ofPath? path).isSome ∨ name = "exclude" ∨ ruleFiles.contains name then
    return .file ⟨(← readBytes path).getD [], ← readListing path⟩
  else return .file ⟨[], none⟩

/-- All that is at a path and below it.  A link is not followed; one that leads nowhere has an empty
target. -/
partial def readTree (path : String) : IO Files.Entry := do
  try
    let real ← IO.FS.realPath path
    if real.toString ≠ path then return .link real.toString
    else if ← real.isDir then
      let children ← real.readDir
      let entries ← children.toList.filterMapM fun c => do
        if h : Files.Path.IsName c.fileName then
          return some (⟨c.fileName, h⟩, ← readTree (Files.Path.join path c.fileName))
        else return none
      return .directory entries
    else readFile path
  catch _ => return .link ""

/-- The tree with the file at a path, if it is there. -/
def addFile (tree : Files.Entry) (path : String) : IO Files.Entry := do
  match ← readBytes path with
  | none => return tree
  | some bytes => return .put (.file ⟨bytes, none⟩) (Config.Surroundings.placeOf path) tree

/-- The directories on the way to a place. -/
def waysTo (place : List String) : List (List String) :=
  (List.range (place.length + 1)).map fun n => place.take n

/-- The tree with the files that hold rules or settings for a directory or for what is below it. -/
def addRules (tree : Files.Entry) (place : List String) : IO Files.Entry :=
  let names := ruleFiles ++ [".git/info/exclude"]
  (waysTo place).foldlM (fun tree way => do
    let tree := tree.putDirectory way
    names.foldlM (fun tree name =>
      addFile tree (Files.Path.join (Config.Surroundings.pathText way) name)) tree) tree

/-- The files that the program looks at: those with settings and, once the settings are known, those
below the directory to scan. -/
def readSurroundings (words : List String) : IO Config.Surroundings := do
  let directory := Config.Surroundings.placeOf (← IO.currentDir).toString
  let env ← readVariables
  let tree ← addRules .empty directory
  let found : Config.Surroundings := { tree, directory, env }
  let user := found.env.filterMap fun (name, value) =>
    if name = "HOME" then some (Files.Path.join value ".config")
    else if name = "XDG_CONFIG_HOME" then some value
    else none
  let tree ← user.foldlM (fun tree base =>
    addFile tree (Config.Surroundings.userFile.foldl Files.Path.join base)) tree
  let found := { found with tree }
  match App.Arguments.parse words with
  | .error _ => return found
  | .ok args =>
    match App.settings args found with
    | .error _ => return found
    | .ok settings =>
      let path := Files.Path.join (Config.Surroundings.pathText directory) settings.ingest.root
      try
        let root := (← IO.FS.realPath path).toString
        let place := Config.Surroundings.placeOf root
        let tree ← addRules found.tree place
        return { found with tree := .put (← readTree root) place tree }
      catch _ => return found

/-- The program in the world that is really there. -/
def start (words : List String) : IO UInt32 := do
  let begun ← IO.monoNanosNow
  let surroundings ← readSurroundings words
  let nanos := (← IO.monoNanosNow) - begun
  let world : App.World Unit := {
    surroundings
    hostNames := Url.Host.plainName
    database := fun _ => .unreachable
    exchange := fun _ => none
    clock := fun _ => "1970-01-01T00:00:00+00:00"
    elapsed := Elapsed.text ⟨nanos / 1000000000, nanos % 1000000000⟩ }
  let (ending, _) := App.launch words world ()
  for e in ending.events do
    IO.println s!"{e.level.name} {e.origin}: {e.text}"
  IO.print ending.output
  for text in ending.errors do
    IO.eprintln s!"Error: {text}"
  return ending.exitCode.toUInt32

end CodeAtlas.Main

/-- The program, started from a command line. -/
def main (words : List String) : IO UInt32 := CodeAtlas.Main.start words
