import CodeAtlas.Number.Hex
import CodeAtlas.Text.Hidden

/-!
# Quoted text

The form in which a text is shown inside a message: between double quotes, with everything that
would not be seen, or would end the quotes, written as an escape.

## Main definitions

* `CodeAtlas.Text.quote` — the quoted form of a text.
-/

namespace CodeAtlas.Text

/-- The form of one character between quotes. -/
def quoteChar (c : Char) : List Char :=
  if c = '"' then ['\\', '"']
  else if c = '\\' then ['\\', '\\']
  else if c = '\n' then ['\\', 'n']
  else if c = '\r' then ['\\', 'r']
  else if c = '\t' then ['\\', 't']
  else if c = '\x00' then ['\\', '0']
  else if isHidden c then
    "\\u\x7b".toList ++ (Number.Hex.renderShort c.toNat).toList ++ ['\x7d']
  else [c]

/-- The text between double quotes, with escapes where it needs them. -/
def quote (s : String) : String :=
  String.ofList ('"' :: s.toList.flatMap quoteChar ++ ['"'])

end CodeAtlas.Text
