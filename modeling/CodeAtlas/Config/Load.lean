import CodeAtlas.Config.Decode
import CodeAtlas.Config.Variable
import CodeAtlas.Files.Entry
import CodeAtlas.Toml.Document

/-!
# Where settings come from

The settings come from up to four sources, each laid over the ones before it: a file of the user, a file
of the project, environment variables with names of their own, and environment variables named after the
settings.

## Main definitions

* `CodeAtlas.Config.Surroundings` — the files and variables that a program finds.
* `CodeAtlas.Config.Surroundings.layers` — the layers, the weakest first.
* `CodeAtlas.Config.load` — the settings.
-/

namespace CodeAtlas.Config

/-- What a program finds when it starts. -/
structure Surroundings where
  /-- All files. -/
  tree : Files.Entry
  /-- The place of the working directory. -/
  directory : List String
  /-- The environment variables. -/
  env : List (String × String)

namespace Surroundings

/-- The value of a variable. -/
def env? (s : Surroundings) (name : String) : Option String :=
  (s.env.find? fun e => e.1 = name).map Prod.snd

/-- The absolute path of a place. -/
def pathText (place : List String) : String := "/" ++ "/".intercalate place

/-- What is left of two places when what they have in common at the start is dropped. -/
def diverge : List String → List String → List String × List String
  | a :: as, b :: bs => if a = b then diverge as bs else (a :: as, b :: bs)
  | as, bs => (as, bs)

/-- How a message names the file at a place: seen from the working directory if that is shorter, else by
its absolute path. -/
def shown (s : Surroundings) (place : List String) : String :=
  let (up, down) := diverge s.directory place
  if up.length + down.length < place.length + 1 then
    "/".intercalate (up.map (fun _ => "..") ++ down)
  else pathText place

/-- The path of the file with the settings of a user, below the directory for settings. -/
def userFile : List String := ["treeline", "config.toml"]

/-- The names that an absolute path consists of. -/
def placeOf (path : String) : List String :=
  (Files.Path.components path).filterMap fun c =>
    match c with
    | .name n => some n
    | _ => none

/-- The place of the user's file: in the directory `.config` of the home directory if it is there, else
in the directory that a variable names by an absolute path. -/
def userPlace? (s : Surroundings) : Option (List String) :=
  let home := (s.env? "HOME").map fun h => placeOf h ++ [".config"] ++ userFile
  match home.filter fun p => (s.tree.resolve? [] (pathText p)).isSome with
  | some p => some p
  | none =>
    match (s.env? "XDG_CONFIG_HOME").filter Files.Path.isAbsolute with
    | some d => some (placeOf d ++ userFile)
    | none => home

/-- The name of the file with the settings of a project. -/
def projectFile : String := ".treeline.toml"

/-- The file at a place, if it is one. -/
def file? (s : Surroundings) (place : List String) : Option (List UInt8) :=
  (s.tree.read? [] (pathText place)).map (·.bytes)

/-- The place of the project's file: in the working directory or else in the nearest directory above;
`above` holds the names of the directory, innermost first. -/
def projectPlace? (s : Surroundings) (above : List String) : Option (List String) :=
  let place := (projectFile :: above).reverse
  if (s.file? place).isSome then some place
  else
    match above with
    | [] => none
    | _ :: rest => s.projectPlace? rest

/-- The layer of a file. -/
def fileLayer (s : Surroundings) (place : List String) : Except Fault (Option Value) :=
  match s.file? place with
  | none => .ok none
  | some bytes =>
    let o := Origin.file (s.shown place)
    match Text.Utf8.decode bytes with
    | .error _ => .error { cause := .unreadable "stream did not contain valid UTF-8" }
    | .ok cs =>
      match Toml.read cs with
      | none => .error { cause := .unreadable "TOML parse error" }
      | some entries => .ok (some (.table o (Value.ofTomlEntries o entries)))

/-- The start of the names of variables that are named after the settings. -/
def variableStart : String := "TREELINE_"

/-- The layers, the weakest first. -/
def layers (s : Surroundings) : Except Fault (List Value) := do
  let user ← match s.userPlace? with
    | some place => s.fileLayer place
    | none => .ok none
  let project ← match s.projectPlace? s.directory.reverse with
    | some place => s.fileLayer place
    | none => .ok none
  return user.toList ++ project.toList
    ++ [Variable.conventional s.env, Variable.prefixedWith variableStart s.env]

end Surroundings

/-- All layers as one, each laid over the ones before it. -/
def stack (layers : List Value) : Value :=
  layers.foldl Value.merge (.table .variables [])

/-- The settings that a program finds. -/
def load (s : Surroundings) : Except Failure Settings :=
  match s.layers with
  | .error f => .error (.config f)
  | .ok layers =>
    match Settings.ofValue (stack layers) with
    | .error f => .error (.config f)
    | .ok settings => .ok settings

end CodeAtlas.Config
