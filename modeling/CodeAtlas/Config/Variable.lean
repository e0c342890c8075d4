import CodeAtlas.Config.Value
import CodeAtlas.Files.Path
import CodeAtlas.Number.Word
import CodeAtlas.Text.Blank
import CodeAtlas.Toml.Text

/-!
# Settings in environment variables

A variable holds text; what the text means is guessed from its form.  Truth values, lists in brackets,
tables in braces, quoted texts and single characters have a notation; anything else is a number if it
reads as one, and a text if not.  Text with a notation that does not work out is taken as it is.

## Main definitions

* `CodeAtlas.Config.Variable.read` — the value of a text.
* `CodeAtlas.Config.Variable.layer` — the layer of some variables.
* `CodeAtlas.Config.Variable.conventional`, `CodeAtlas.Config.Variable.prefixedWith` — the two layers
  that variables make.
-/

namespace CodeAtlas.Config.Variable

open CodeAtlas.Number

/-- A character that may stand around values. -/
def isSpace (c : Char) : Bool := c = ' ' || c = '\t' || c = '\n' || c = '\r' || c = '\x0c'

/-- What follows leading spaces. -/
def skipSpace (cs : List Char) : List Char := cs.dropWhile isSpace

/-- A character of a value without notation. -/
def isLoose (c : Char) : Bool :=
  !(c = ',' || c = '[' || c = ']' || c = '\x7b' || c = '\x7d')

/-- A character of a key without quotes. -/
def isKeyChar (c : Char) : Bool := c.isAlphanum || c = '_' || c = '-'

/-! ## Numbers -/

/-- The number of a nonempty sequence of decimal digits. -/
def natural? (cs : List Char) : Option Nat :=
  if cs.isEmpty ∨ ¬ cs.all Char.isDigit then none
  else some (cs.foldl (fun n c => 10 * n + (c.toNat - 48)) 0)

/-- The unsigned integer with 64 bits that a text stands for. -/
def unsigned? (cs : List Char) : Option Nat :=
  let digits :=
    match cs with
    | '+' :: rest => rest
    | _ => cs
  (natural? digits).filter (· ≤ Word.greatestUnsigned)

/-- The signed integer with 64 bits that a text stands for. -/
def signed? (cs : List Char) : Option Int :=
  let found : Option Int :=
    match cs with
    | '-' :: rest => (natural? rest).map fun n => -(n : Int)
    | '+' :: rest => (natural? rest).map fun n => (n : Int)
    | _ => (natural? cs).map fun n => (n : Int)
  found.filter Word.isSigned

/-- The exponent that the end of a numeral gives. -/
def exponent? (cs : List Char) : Option Int :=
  match cs with
  | [] => some 0
  | c :: rest =>
    if c = 'e' ∨ c = 'E' then
      match rest with
      | '-' :: digits => (natural? digits).map fun n => -(n : Int)
      | '+' :: digits => (natural? digits).map fun n => (n : Int)
      | digits => (natural? digits).map fun n => (n : Int)
    else none

/-- The number that a text with a point stands for.  One side of the point may be without digits. -/
def float? (cs : List Char) : Option Binary64 :=
  let (negative, cs) :=
    match cs with
    | '-' :: rest => (true, rest)
    | '+' :: rest => (false, rest)
    | _ => (false, cs)
  let whole := cs.takeWhile Char.isDigit
  match cs.drop whole.length with
  | '.' :: rest =>
    let part := rest.takeWhile Char.isDigit
    match natural? (whole ++ part), exponent? (rest.drop part.length) with
    | some digits, some e => some (Decimal.nearest negative ⟨digits, e - part.length⟩)
    | _, _ => none
  | _ => none

/-- The value of a text without notation. -/
def scalar (cs : List Char) : Scalar :=
  match (if cs.contains '.' then float? cs else none) with
  | some x => .float x
  | none =>
    match unsigned? cs with
    | some n => .unsigned n
    | none =>
      match signed? cs with
      | some i => .signed i
      | none => .text (String.ofList cs)

/-! ## Notation -/

/-- The text between double quotes up to the closing one, after that of `read` (newest first), and what
follows.  Any character may stand for itself but the quote and the backslash. -/
def scanQuoted (read : List Char) : List Char → Option (String × List Char)
  | [] => none
  | '"' :: rest => some (String.ofList read.reverse, rest)
  | '\\' :: 'u' :: a :: b :: c :: d :: rest =>
    match Toml.scalar? [a, b, c, d] with
    | some x => scanQuoted (x :: read) rest
    | none => none
  | '\\' :: 'U' :: a :: b :: c :: d :: e :: f :: g :: h :: rest =>
    match Toml.scalar? [a, b, c, d, e, f, g, h] with
    | some x => scanQuoted (x :: read) rest
    | none => none
  | '\\' :: e :: rest =>
    match Toml.simpleEscape e with
    | some x => scanQuoted (x :: read) rest
    | none => none
  | c :: rest => scanQuoted (c :: read) rest

/-- A key and what follows it. -/
def scanKey (cs : List Char) : Option (String × List Char) :=
  match cs with
  | '"' :: rest => scanQuoted [] rest
  | _ =>
    let key := cs.takeWhile isKeyChar
    if key.isEmpty then none else some (String.ofList key, cs.dropWhile isKeyChar)

mutual

/-- A value and what follows it and the spaces after it; `fuel` bounds the number of parts read. -/
def scanWithin (o : Origin) : Nat → List Char → Option (Value × List Char)
  | 0, _ => none
  | fuel + 1, cs =>
    let found : Option (Value × List Char) :=
      match skipSpace cs with
      | 't' :: 'r' :: 'u' :: 'e' :: rest => some (.scalar o (.bool true), rest)
      | 'f' :: 'a' :: 'l' :: 's' :: 'e' :: rest => some (.scalar o (.bool false), rest)
      | '\x7b' :: rest => scanEntriesWithin o fuel [] rest
      | '[' :: rest => scanItemsWithin o fuel [] rest
      | '"' :: rest => (scanQuoted [] rest).map fun (s, rest) => (.scalar o (.text s), rest)
      | '\'' :: rest =>
        match rest with
        | c :: '\'' :: rest => some (.scalar o (.char c), rest)
        | _ => none
      | cs =>
        some (.scalar o (scalar (Text.trimChars (cs.takeWhile isLoose))), cs.dropWhile isLoose)
    match found with
    | some (v, rest) => some (v, skipSpace rest)
    | none => none

/-- The items of a list after those of `read` (newest first), and what follows the list. -/
def scanItemsWithin (o : Origin) : Nat → List Value → List Char → Option (Value × List Char)
  | 0, _, _ => none
  | _ + 1, read, ']' :: rest => some (.list o read.reverse, rest)
  | fuel + 1, read, cs =>
    match scanWithin o fuel cs with
    | some (v, ',' :: rest) => scanItemsWithin o fuel (v :: read) rest
    | some (v, ']' :: rest) => some (.list o (v :: read).reverse, rest)
    | _ => none

/-- The entries of a table over those of `read`, and what follows the table.  Of repeated keys the last
one counts. -/
def scanEntriesWithin (o : Origin) : Nat → Table Value → List Char → Option (Value × List Char)
  | 0, _, _ => none
  | _ + 1, read, '\x7d' :: rest => some (.table o read, rest)
  | fuel + 1, read, cs =>
    match scanKey (skipSpace cs) with
    | none => none
    | some (key, rest) =>
      match skipSpace rest with
      | '=' :: rest =>
        match scanWithin o fuel rest with
        | some (v, ',' :: rest) => scanEntriesWithin o fuel (Table.insert key v read) rest
        | some (v, '\x7d' :: rest) => some (.table o (Table.insert key v read), rest)
        | _ => none
      | _ => none

end

/-- The value of a text.  Every part takes a character, so the number of characters bounds the number
of parts. -/
def read (o : Origin) (text : String) : Value :=
  let cs := text.toList
  match scanWithin o (2 * cs.length + 3) cs with
  | some (v, []) => v
  | _ => .scalar o (.text text)

/-! ## Layers -/

/-- The layer of some values, each at its path; a later one is laid over an earlier one. -/
def layer (o : Origin) (values : List (List String × String)) : Value :=
  values.foldl (fun below (path, text) => below.merge (.nest o path (read o text))) (.table o [])

/-- A text in lower case; only the letters from `A` to `Z` change. -/
def lower (s : String) : String := String.ofList (s.toList.map Char.toLower)

/-- Variables with names of their own, and the settings that they give. -/
def conventions : List (String × List String) :=
  [("neo4j_uri", ["graph", "uri"]),
   ("neo4j_user", ["graph", "user"]),
   ("neo4j_password", ["graph", "password"]),
   ("openai_api_key", ["embedding", "api_key"]),
   ("embedding_model", ["embedding", "model"]),
   ("root_dir", ["ingest", "root"]),
   ("batch_size", ["ingest", "batch_size"]),
   ("parse_concurrency", ["ingest", "concurrency"])]

/-- The layer of the variables with names of their own.  Names are compared without regard to case. -/
def conventional (env : List (String × String)) : Value :=
  layer .variables (env.filterMap fun (name, text) =>
    (conventions.find? fun c => c.1 = lower (Text.trim name)).map fun c => (c.2, text))

/-- What follows `start` in a name, without regard to case. -/
def afterStart? (start name : String) : Option (List Char) :=
  let cs := (lower name).toList
  let start := (lower start).toList
  if start.isPrefixOf cs then some (cs.drop start.length) else none

/-- A name with each pair of underscores made a dot, from left to right. -/
def dotted : List Char → List Char
  | [] => []
  | '_' :: '_' :: rest => '.' :: dotted rest
  | c :: rest => c :: dotted rest

/-- The path that a name stands for, unless a part of it is empty. -/
def path? (name : List Char) : Option (List String) :=
  let parts := Files.Path.split '.' (Text.trimChars (dotted name))
  if parts.any List.isEmpty then none else some (parts.map String.ofList)

/-- The layer of the variables whose names begin with `start`, without regard to case.  Two underscores
divide the parts of a path. -/
def prefixedWith (start : String) (env : List (String × String)) : Value :=
  layer (.prefixed start) (env.filterMap fun (name, text) =>
    ((afterStart? start (Text.trim name)).bind path?).map (·, text))

end CodeAtlas.Config.Variable
