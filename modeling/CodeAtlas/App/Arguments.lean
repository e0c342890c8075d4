/-!
# Command lines

The arguments of the program: two options, which may stand before or after the command, and one command.
An argument that makes no sense is refused, and a request for help ends the reading at once.

The value of an option may be attached to it or be the next argument.  An option that is still without
its value when another argument begins is refused only then, so of two faults the later one may be the
one that is reported.

## Main definitions

* `CodeAtlas.App.Arguments` — what a command line asks for.
* `CodeAtlas.App.Usage` — why a command line asks for nothing.
* `CodeAtlas.App.Arguments.parse` — the reading of a command line.
-/

namespace CodeAtlas.App

/-- What the program can be told to do instead of a run. -/
inductive Command where
  /-- The store is set up. -/
  | init
  deriving DecidableEq, Repr

/-- The name of a command. -/
def Command.name : Command → String
  | .init => "init"

/-- What a command line asks for. -/
structure Arguments where
  /-- More is to be logged. -/
  verbose : Bool := false
  /-- The directory to scan. -/
  root : Option String := none
  /-- The command, if it is no run. -/
  command : Option Command := none
  deriving DecidableEq, Repr

/-- Why a command line asks for nothing that could be done. -/
inductive Usage where
  /-- The value of an option is missing or empty. -/
  | invalidValue
  /-- The program knows no such argument. -/
  | unknownArgument
  /-- The program knows no such command. -/
  | invalidSubcommand
  /-- An option is given twice. -/
  | argumentConflict
  /-- An option that takes no value has one. -/
  | tooManyValues
  /-- A help text is asked for. -/
  | displayHelp (text : String)
  /-- The version is asked for. -/
  | displayVersion (text : String)
  deriving DecidableEq, Repr

namespace Usage

/-- The kind of the refusal. -/
def kind : Usage → String
  | .invalidValue => "InvalidValue"
  | .unknownArgument => "UnknownArgument"
  | .invalidSubcommand => "InvalidSubcommand"
  | .argumentConflict => "ArgumentConflict"
  | .tooManyValues => "TooManyValues"
  | .displayHelp _ => "DisplayHelp"
  | .displayVersion _ => "DisplayVersion"

/-- The text that was asked for. -/
def text? : Usage → Option String
  | .displayHelp t => some t
  | .displayVersion t => some t
  | _ => none

/-- The exit code: a text that was asked for is no fault. -/
def exitCode (u : Usage) : Nat := if u.text?.isSome then 0 else 2

end Usage

/-! ## Help texts -/

/-- The lines of a text, each with its end. -/
def lines (ls : List String) : String := String.join (ls.map (· ++ "\n"))

/-- The help on the options that every command takes. -/
def commonOptions : List String :=
  ["Options:",
   "  -v, --verbose      Run in verbose mode",
   "      --root <ROOT>  Directory to scan (overrides `ingest.root`)",
   "  -h, --help         Print help"]

/-- The help on the program. -/
def programHelp : String :=
  lines (["Extract functions and classes from a source tree into a graph store", "",
    "Usage: treeline [OPTIONS] [COMMAND]", "",
    "Commands:",
    "  init  Create the graph schema constraints",
    "  help  Print this message or the help of the given subcommand(s)", ""]
    ++ commonOptions ++ ["  -V, --version      Print version"])

/-- The help on the command that sets up the store. -/
def initHelp : String :=
  lines (["Create the graph schema constraints", "", "Usage: treeline init [OPTIONS]", ""]
    ++ commonOptions)

/-- The help on the help. -/
def helpHelp : String :=
  lines ["Print this message or the help of the given subcommand(s)", "",
    "Usage: treeline help [COMMAND]...", "",
    "Arguments:",
    "  [COMMAND]...  Print help for the subcommand(s)"]

/-- The version of the program. -/
def version : String := lines ["treeline 0.1.0"]

/-- What follows from the arguments after `help`. -/
def helpOn : List String → Usage
  | [] => .displayHelp programHelp
  | ["init"] => .displayHelp initHelp
  | ["help"] => .displayHelp helpHelp
  | _ => .invalidSubcommand

/-! ## Reading -/

/-- Where in a command line the reading is. -/
inductive Scope where
  /-- Before a command. -/
  | program
  /-- After the command. -/
  | command
  deriving DecidableEq, Repr

namespace Scope

/-- The help text for the scope. -/
def help : Scope → String
  | .program => programHelp
  | .command => initHelp

/-- The refusal of a word that belongs to no option. -/
def refusal : Scope → Usage
  | .program => .invalidSubcommand
  | .command => .unknownArgument

/-- The refusal of a word after a double dash. -/
def refusalAfterDashes (word : String) : Scope → Usage
  | .program => if word = "init" ∨ word = "help" then .unknownArgument else .invalidSubcommand
  | .command => .unknownArgument

end Scope

/-- The option with a value that is being read. -/
inductive Pending where
  /-- No option. -/
  | none
  /-- The option, without its value. -/
  | awaiting
  /-- The option with its value, which has not been looked at. -/
  | given (value : String)
  deriving DecidableEq, Repr

/-- What has been read. -/
structure Scan where
  /-- More is to be logged. -/
  verbose : Bool := false
  /-- The directory to scan. -/
  root : Option String := none
  /-- The option with a value that is being read. -/
  pending : Pending := .none
  deriving DecidableEq, Repr

namespace Scan

/-- The directory set, which may happen once and not to the empty text. -/
def setRoot (value : String) (s : Scan) : Except Usage Scan :=
  if s.root.isSome then .error .argumentConflict
  else if value.isEmpty then .error .invalidValue
  else .ok { s with root := some value, pending := .none }

/-- The option that is being read comes to its end. -/
def resolve (s : Scan) : Except Usage Scan :=
  match s.pending with
  | .none => .ok s
  | .awaiting => .error .invalidValue
  | .given value => s.setRoot value

/-- The verbose mode set, which may happen once. -/
def setVerbose (s : Scan) : Except Usage Scan := do
  let s ← s.resolve
  if s.verbose then .error .argumentConflict else .ok { s with verbose := true }

/-- An option given by a single letter. -/
def short (scope : Scope) (c : Char) (s : Scan) : Except Usage Scan :=
  if c = 'v' then s.setVerbose
  else if c = 'h' then do
    let _ ← s.resolve
    .error (.displayHelp scope.help)
  else if c = 'V' ∧ scope = .program then do
    let _ ← s.resolve
    .error (.displayVersion version)
  else .error .unknownArgument

/-- Options given by single letters after one dash. -/
def shorts (scope : Scope) : List Char → Scan → Except Usage Scan
  | [], s => .ok s
  | c :: rest, s => do
    let s ← s.short scope c
    s.shorts scope rest

/-- An option given by its name after two dashes, with the value after an equals sign. -/
def long (scope : Scope) (name : String) (value : Option String) (s : Scan) : Except Usage Scan :=
  let flag (act : Except Usage Scan) : Except Usage Scan :=
    if value.isSome then .error .tooManyValues else act
  if name = "verbose" then flag s.setVerbose
  else if name = "help" then flag (s.short scope 'h')
  else if name = "version" ∧ scope = .program then flag (s.short scope 'V')
  else if name = "root" then do
    let s ← s.resolve
    match value with
    | some v => s.setRoot v
    | none => .ok { s with pending := .awaiting }
  else .error .unknownArgument

end Scan

/-- The name of an option and the value after the first equals sign. -/
def splitEquals (cs : List Char) : String × Option String :=
  let name := String.ofList (cs.takeWhile (· ≠ '='))
  match cs.dropWhile (· ≠ '=') with
  | [] => (name, none)
  | _ :: value => (name, some (String.ofList value))

/-- Reads arguments up to a command or to the end: what has been read, and what follows the command if
there is one. -/
def scan (scope : Scope) : List String → Scan → Except Usage (Scan × Option (List String))
  | [], s => .ok (s, none)
  | word :: rest, s =>
    if scope = .program ∧ s.pending ≠ .awaiting ∧ word = "init" then .ok (s, some rest)
    else if scope = .program ∧ s.pending ≠ .awaiting ∧ word = "help" then .error (helpOn rest)
    else
      match word.toList with
      | ['-', '-'] =>
        match rest with
        | [] => .ok (s, none)
        | next :: _ => .error (scope.refusalAfterDashes next)
      | '-' :: '-' :: option => do
        let (name, value) := splitEquals option
        let s ← s.long scope name value
        scan scope rest s
      | '-' :: c :: letters => do
        let s ← s.shorts scope (c :: letters)
        scan scope rest s
      | _ =>
        if s.pending = .awaiting then scan scope rest { s with pending := .given word }
        else .error scope.refusal

/-- What a command line asks for.  An option after the command counts more than one before it, and an
option before the command comes to its end only after the command has been read. -/
def Arguments.parse (words : List String) : Except Usage Arguments := do
  match ← scan .program words {} with
  | (s, none) =>
    let s ← s.resolve
    return { verbose := s.verbose, root := s.root }
  | (s, some rest) =>
    let (c, _) ← scan .command rest {}
    let c ← c.resolve
    let s ← s.resolve
    return { verbose := s.verbose || c.verbose, root := c.root <|> s.root, command := some .init }

end CodeAtlas.App
