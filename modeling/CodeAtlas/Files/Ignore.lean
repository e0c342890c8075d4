import CodeAtlas.Files.Entry
import CodeAtlas.Glob.Match
import CodeAtlas.Text.Blank

/-!
# Ignore files

A directory may hold files that list what is to be passed over in it and below it.  There are three of
them, and the rules in the first class win over those in the later ones.  Within a class the rules of the
nearest directory win, and within a file the last rule that applies.

## Main definitions

* `CodeAtlas.Files.Ignore.Rule` — a line of an ignore file.
* `CodeAtlas.Files.Ignore.Rule.ofLine?` — the rule of a line.
* `CodeAtlas.Files.Ignore.Rules` — the rules of a directory.
* `CodeAtlas.Files.Ignore.verdict` — what the rules of a directory and of those above it say of an
  entry.
-/

namespace CodeAtlas.Files.Ignore

/-- What rules say of an entry. -/
inductive Verdict where
  /-- Nothing. -/
  | silent
  /-- The entry is passed over. -/
  | ignored
  /-- The entry is kept, even if its name would hide it. -/
  | kept
  deriving DecidableEq, Repr

/-- The first verdict that says something. -/
def Verdict.orElse (a b : Verdict) : Verdict :=
  match a with
  | .silent => b
  | _ => a

/-- A line of an ignore file. -/
structure Rule where
  /-- The paths it speaks of, seen from the directory. -/
  pattern : Glob.Pattern
  /-- The entries are kept. -/
  keeps : Bool
  /-- Only directories are meant. -/
  onlyDirectories : Bool

namespace Rule

/-- The pattern for a text without a separator matches at any depth. -/
def anyDepth (text : List Char) : List Char :=
  if "**/".toList.isPrefixOf text ∨ text = "**".toList then text else "**/".toList ++ text

/-- All that is below a directory does not include the directory. -/
def strictlyBelow (text : List Char) : List Char :=
  if "/**".toList.isSuffixOf text then text ++ "/*".toList else text

/-- The line without trailing blanks, unless the last one is escaped. -/
def trimLine (line : List Char) : List Char :=
  if "\\ ".toList.isSuffixOf line then line else Text.trimEndChars line

/-- The text of a pattern without a trailing separator, which may be escaped, and whether there was
one. -/
def dropTrailing (text : List Char) : List Char × Bool :=
  match text.reverse with
  | '/' :: '\\' :: rest => (rest.reverse, true)
  | '/' :: rest => (rest.reverse, true)
  | _ => (text, false)

/-- The rule of a line; none for a comment, an empty line, and a text that is no pattern. -/
def ofLine? (line : List Char) : Option Rule :=
  if line.head? = some '#' then none
  else
    let line := trimLine line
    if line.isEmpty then none
    else
      let (keeps, anchored, text) :=
        match line with
        | '\\' :: '!' :: rest => (false, false, '!' :: rest)
        | '\\' :: '#' :: rest => (false, false, '#' :: rest)
        | '!' :: '/' :: rest => (true, true, rest)
        | '!' :: rest => (true, false, rest)
        | '/' :: rest => (false, true, rest)
        | _ => (false, false, line)
      let (text, onlyDirectories) := dropTrailing text
      let placed := if anchored ∨ text.contains '/' then text else anyDepth text
      match Glob.parse .ignoreFile (strictlyBelow placed) with
      | .ok tokens => some ⟨⟨.ignoreFile, tokens⟩, keeps, onlyDirectories⟩
      | .error _ => none

end Rule

/-! ## Ignore files -/

/-- The lines of some bytes. -/
def splitLines (line : List UInt8) : List UInt8 → List (List UInt8)
  | [] => if line.isEmpty then [] else [line.reverse]
  | b :: rest =>
    if b = 0x0A then line.reverse :: splitLines [] rest else splitLines (b :: line) rest

/-- A line without the return that may end it. -/
def dropReturn (line : List UInt8) : List UInt8 :=
  match line.reverse with
  | 0x0D :: rest => rest.reverse
  | _ => line

/-- The texts of lines up to the first that is no text. -/
def decodeLines : List (List UInt8) → List (List Char)
  | [] => []
  | line :: rest =>
    match Text.Utf8.decode line with
    | .ok cs => cs :: decodeLines rest
    | .error _ => []

/-- The lines without the mark that may stand before the first. -/
def dropMark : List (List Char) → List (List Char)
  | [] => []
  | line :: rest => line.dropWhile (· = '\ufeff') :: rest

/-- A last line ends without a line feed; a return before a line feed belongs to the line end. -/
def textLines (bytes : List UInt8) : List (List Char) :=
  let lines := splitLines [] bytes
  let ended := bytes.getLast? = some 0x0A
  let complete := if ended then lines else lines.dropLast
  let last := if ended then [] else lines.getLast?.toList
  dropMark (decodeLines (complete.map dropReturn ++ last))

/-- The rules of an ignore file, in order. -/
def rulesOf (bytes : List UInt8) : List Rule := (textLines bytes).filterMap Rule.ofLine?

/-- What the rules of a file say of the entry at `path`, seen from the directory of the file. -/
def fileVerdict (rules : List Rule) (path : List UInt8) (isDirectory : Bool) : Verdict :=
  match rules.reverse.find? fun r =>
      (!r.onlyDirectories || isDirectory) && r.pattern.isMatch path with
  | some r => if r.keeps then .kept else .ignored
  | none => .silent

/-- The rules of a directory, strongest class first. -/
structure Rules where
  /-- The general rules. -/
  general : List Rule := []
  /-- The rules for version control. -/
  versioned : List Rule := []
  /-- The private rules for version control. -/
  excluded : List Rule := []

/-- The rules that the directory at a place holds. -/
def Rules.read (root : Entry) (place : List String) : Rules :=
  let load (path : String) : List Rule :=
    match root.read? place path with
    | some source => rulesOf source.bytes
    | none => []
  ⟨load ".ignore", load ".gitignore", load ".git/info/exclude"⟩

/-- Directories with their rules, nearest first, each with the path that leads from it to the directory
at hand. -/
abbrev Scope := List (Rules × String)

/-- The path of an entry of a directory. -/
def below (directory name : String) : String :=
  if directory.isEmpty then name else directory ++ "/" ++ name

/-- The scope of a subdirectory that holds `rules` itself. -/
def Scope.enter (scope : Scope) (name : String) (rules : Rules) : Scope :=
  (rules, "") :: scope.map fun s => (s.1, below s.2 name)

/-- What the rules of one class say of an entry of the directory at hand. -/
def classVerdict (select : Rules → List Rule) (scope : Scope) (name : String)
    (isDirectory : Bool) : Verdict :=
  scope.foldl (fun v s => v.orElse
    (fileVerdict (select s.1) (Text.Utf8.encode (below s.2 name)) isDirectory)) .silent

/-- What all rules say of an entry of the directory at hand. -/
def verdict (scope : Scope) (name : String) (isDirectory : Bool) : Verdict :=
  ((classVerdict Rules.general scope name isDirectory).orElse
    (classVerdict Rules.versioned scope name isDirectory)).orElse
    (classVerdict Rules.excluded scope name isDirectory)

/-- The entry is passed over: by a rule, or because its name hides it and no rule keeps it. -/
def skips (scope : Scope) (name : String) (isDirectory : Bool) : Bool :=
  match verdict scope name isDirectory with
  | .ignored => true
  | .kept => false
  | .silent => name.toList.head? = some '.'

end CodeAtlas.Files.Ignore
