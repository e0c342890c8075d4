import CodeAtlas.Text.Utf8

/-!
# Byte ranges of a text

Positions in a source text are byte offsets of its UTF-8 form, while the text itself is a list of
characters.  A range that leaves the text or cuts a character apart reads as nothing.

## Main definitions

* `CodeAtlas.Text.width` — the number of UTF-8 bytes of a text.
* `CodeAtlas.Text.slice` — the characters between two byte offsets.
* `CodeAtlas.Text.truncate` — the longest leading part that fits a number of bytes.
-/

namespace CodeAtlas.Text

/-- The number of UTF-8 bytes of the characters. -/
def width (cs : List Char) : Nat := cs.foldl (fun n c => n + c.utf8Size) 0

/-- What follows the first `n` bytes; `none` if byte `n` is inside a character or past the end. -/
def dropBytes : Nat → List Char → Option (List Char)
  | 0, cs => some cs
  | _ + 1, [] => none
  | n + 1, c :: cs => if c.utf8Size ≤ n + 1 then dropBytes (n + 1 - c.utf8Size) cs else none

/-- The first `n` bytes, after those of `taken` (newest first); `none` if byte `n` is inside a
character or past the end. -/
def takeBytesFrom (taken : List Char) : Nat → List Char → Option (List Char)
  | 0, _ => some taken.reverse
  | _ + 1, [] => none
  | n + 1, c :: cs =>
    if c.utf8Size ≤ n + 1 then takeBytesFrom (c :: taken) (n + 1 - c.utf8Size) cs else none

/-- The first `n` bytes; `none` if byte `n` is inside a character or past the end. -/
def takeBytes (n : Nat) (cs : List Char) : Option (List Char) := takeBytesFrom [] n cs

/-- The characters from byte `start` up to byte `stop`. -/
def slice (cs : List Char) (start stop : Nat) : Option (List Char) :=
  if start ≤ stop then (dropBytes start cs).bind (takeBytes (stop - start)) else none

/-- No character is cut after the first `n` bytes of a text: nothing stands before them or nothing after
them, or a character starts there. -/
def boundaryAt (bytes : List UInt8) (n : Nat) : Bool :=
  n == 0 ||
    match bytes[n]? with
    | none => n == bytes.length
    | some b => !Utf8.isContinuation b

/-- The last offset up to `n`, looked for backwards, at which no character is cut; `none` if the search
passes the first byte. -/
def boundaryUpTo (bytes : List UInt8) : Nat → Option Nat
  | 0 => if boundaryAt bytes 0 then some 0 else none
  | n + 1 => if boundaryAt bytes (n + 1) then some (n + 1) else boundaryUpTo bytes n

/-- The longest leading part of the text that has at most `max` bytes and cuts no character; `none` if no
place to cut is found. -/
def truncate (max : Nat) (text : String) : Option String := do
  let bytes := Utf8.encode text
  if bytes.length ≤ max then return text
  let stop ← boundaryUpTo bytes max
  let chars ← takeBytes stop text.toList
  return String.ofList chars

end CodeAtlas.Text
