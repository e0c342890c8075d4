import CodeAtlas.Toml.Numeral
import CodeAtlas.Toml.Section
import CodeAtlas.Toml.Text

/-!
# TOML documents

A document is a sequence of lines: headers, pairs of a key and a value, blank lines.  A value may run
over several lines inside brackets or triple marks.  A document that breaks a rule of the format has no
value at all.

## Main definitions

* `CodeAtlas.Toml.read` — the table that a document defines.
-/

namespace CodeAtlas.Toml

mutual

/-- A value and what follows it, with at most `depth` lists and tables inside one another; `fuel` bounds
the number of parts read. -/
def scanValueWithin : Nat → Nat → List Char → Option (Value × List Char)
  | 0, _, _ => none
  | fuel + 1, depth, cs =>
    match cs with
    | '[' :: rest =>
      match depth with
      | 0 => none
      | depth + 1 =>
        match skipLoose false rest with
        | ']' :: rest => some (.array [], rest)
        | rest => scanItemsWithin fuel depth [] rest
    | '\x7b' :: rest =>
      match depth with
      | 0 => none
      | depth + 1 =>
        match skipBlank rest with
        | '\x7d' :: rest => some (.table [], rest)
        | rest => scanPairsWithin fuel depth [] rest
    | 't' :: 'r' :: 'u' :: 'e' :: rest => some (.boolean true, rest)
    | 'f' :: 'a' :: 'l' :: 's' :: 'e' :: rest => some (.boolean false, rest)
    | c :: _ =>
      if c = '"' ∨ c = '\'' then (scanText cs).map fun (s, rest) => (.text s, rest)
      else scanNumeral cs
    | [] => none

/-- The items of a list after those of `read` (newest first), and what follows the list. -/
def scanItemsWithin : Nat → Nat → List Value → List Char → Option (Value × List Char)
  | 0, _, _, _ => none
  | fuel + 1, depth, read, cs =>
    match scanValueWithin fuel depth cs with
    | none => none
    | some (v, rest) =>
      match skipLoose false rest with
      | ']' :: rest => some (.array (v :: read).reverse, rest)
      | ',' :: rest =>
        match skipLoose false rest with
        | ']' :: rest => some (.array (v :: read).reverse, rest)
        | rest => scanItemsWithin fuel depth (v :: read) rest
      | _ => none

/-- The pairs of a table on one line after those of `read` (newest first), and what follows the
table. -/
def scanPairsWithin :
    Nat → Nat → List (List String × Value) → List Char → Option (Value × List Char)
  | 0, _, _, _ => none
  | fuel + 1, depth, read, cs =>
    match scanKey cs with
    | some (key, '=' :: rest) =>
      match scanValueWithin fuel depth (skipBlank rest) with
      | none => none
      | some (v, rest) =>
        match skipBlank rest with
        | '\x7d' :: rest =>
          (defineAll ((key, v) :: read).reverse []).map fun entries =>
            (.table (entryValues entries), rest)
        | ',' :: rest => scanPairsWithin fuel depth ((key, v) :: read) rest
        | _ => none
    | _ => none

end

/-- A value and what follows it.  Every part takes a character, so the number of characters bounds the
number of parts. -/
def scanValue (cs : List Char) : Option (Value × List Char) :=
  scanValueWithin (2 * cs.length + 2) maxDepth cs

/-- A key before a closing bracket: its last part, the parts before it, and what follows the bracket
and the rest of the line. -/
def scanHeader (closing : List Char) (cs : List Char) :
    Option (List String × String × List Char) :=
  match scanKey cs with
  | none => none
  | some (key, rest) =>
    if closing.isPrefixOf rest then
      match key.getLast?, lineEnd? (rest.drop closing.length) with
      | some last, some rest => some (key.dropLast, last, rest)
      | _, _ => none
    else none

/-- The entries after all lines, where `header` is the path of the last header; `fuel` bounds the number
of lines. -/
def readLinesWithin : Nat → List String → Entries → List Char → Option Entries
  | 0, _, entries, cs => if cs.isEmpty then some entries else none
  | fuel + 1, header, entries, cs =>
    match lineEnd? cs with
    | some [] => some entries
    | some rest => readLinesWithin fuel header entries rest
    | none =>
      match skipBlank cs with
      | '[' :: '[' :: rest =>
        match scanHeader [']', ']'] rest with
        | none => none
        | some (path, key, rest) =>
          match openElement path key entries with
          | none => none
          | some entries => readLinesWithin fuel (path ++ [key]) entries rest
      | '[' :: rest =>
        match scanHeader [']'] rest with
        | none => none
        | some (path, key, rest) =>
          match openTable path key entries with
          | none => none
          | some entries => readLinesWithin fuel (path ++ [key]) entries rest
      | cs =>
        match scanKey cs with
        | some (key, '=' :: rest) =>
          match scanValue (skipBlank rest) with
          | none => none
          | some (v, rest) =>
            match lineEnd? rest with
            | none => none
            | some rest =>
              match descend false (fun _ => defineAll [(key, v)]) header false entries with
              | none => none
              | some entries => readLinesWithin fuel header entries rest
        | _ => none

/-- The table that a document defines.  A byte order mark may stand first. -/
def read (cs : List Char) : Option (Table Value) :=
  let cs :=
    match cs with
    | '\ufeff' :: rest => rest
    | _ => cs
  (readLinesWithin (cs.length + 1) [] [] cs).map entryValues

end CodeAtlas.Toml
