/-!
# White space and trimming

The characters with the Unicode property `White_Space`, and trimming by that property.

## Main definitions

* `CodeAtlas.Text.isBlank` — the property, as a finite list of ranges.
* `CodeAtlas.Text.trimChars`, `CodeAtlas.Text.trim` — what is left when blanks at both ends are
  dropped.
-/

namespace CodeAtlas.Text

/-- The characters with the Unicode property `White_Space`. -/
def isBlank (c : Char) : Bool :=
  let n := c.toNat
  (9 ≤ n && n ≤ 13) || n == 0x20 || n == 0x85 || n == 0xA0 || n == 0x1680
    || (0x2000 ≤ n && n ≤ 0x200A) || n == 0x2028 || n == 0x2029 || n == 0x202F
    || n == 0x205F || n == 0x3000

/-- The text without its trailing blanks. -/
def trimEndChars (cs : List Char) : List Char :=
  (cs.reverse.dropWhile isBlank).reverse

/-- The text without its leading and trailing blanks. -/
def trimChars (cs : List Char) : List Char :=
  trimEndChars (cs.dropWhile isBlank)

/-- The text without its leading and trailing blanks. -/
def trim (s : String) : String :=
  String.ofList (trimChars s.toList)

/-- The text without its trailing blanks. -/
def trimEnd (s : String) : String :=
  String.ofList (trimEndChars s.toList)

end CodeAtlas.Text
