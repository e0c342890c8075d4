import CodeAtlas.Json.Value
import CodeAtlas.Number.Hex

/-!
# Writing JSON texts

The compact text of a value: no spaces, fields in the order of the list, and escapes only where
JSON demands them.

## Main definitions

* `CodeAtlas.Json.quote` — a text as a JSON text.
* `CodeAtlas.Json.objectText` — an object from the texts of its fields.
-/

namespace CodeAtlas.Json

/-- The form of a character between quotes. -/
def quoteChar (c : Char) : List Char :=
  if c = '"' then ['\\', '"']
  else if c = '\\' then ['\\', '\\']
  else if c = '\x08' then ['\\', 'b']
  else if c = '\x0c' then ['\\', 'f']
  else if c = '\n' then ['\\', 'n']
  else if c = '\r' then ['\\', 'r']
  else if c = '\t' then ['\\', 't']
  else if c.toNat < 0x20 then '\\' :: 'u' :: (Number.Hex.render 4 c.toNat).toList
  else [c]

/-- The characters after those of `read` (newest first), quoted. -/
def quoteFrom (read : List Char) : List Char → List Char
  | [] => read.reverse
  | c :: cs => quoteFrom ((quoteChar c).reverseAux read) cs

/-- A text between quotes. -/
def quote (s : String) : String := "\"" ++ String.ofList (quoteFrom [] s.toList) ++ "\""

/-- An object from its keys and the texts of its values, in the order given. -/
def objectText (fields : List (String × String)) : String :=
  "\x7b" ++ ",".intercalate (fields.map fun f => quote f.1 ++ ":" ++ f.2) ++ "\x7d"

/-- A list from the texts of its items. -/
def arrayText (items : List String) : String := "[" ++ ",".intercalate items ++ "]"

end CodeAtlas.Json
