import CodeAtlas.Json.Numeral
import CodeAtlas.Number.Hex
import CodeAtlas.Text.Utf8

/-!
# JSON texts

A document is a JSON text as it is written: fields in their order, repeated fields kept, numerals
unread.  It is given by its bytes.  A text between quotes whose bytes are not UTF-8, or whose escapes name
no Unicode scalar value, is still a text, but has no content.

All tokens are written in ASCII, so the bytes are scanned one by one, each as the character with its number;
only the content of a text is decoded.

## Main definitions

* `CodeAtlas.Json.Document` — the documents.
* `CodeAtlas.Json.Document.read` — the document of some bytes.
* `CodeAtlas.Json.Document.value` — the value of a document.
* `CodeAtlas.Json.read` — the value of some bytes.
-/

namespace CodeAtlas.Json

/-- A JSON text as it is written. -/
inductive Document where
  /-- The null value. -/
  | null
  /-- A truth value. -/
  | bool (b : Bool)
  /-- A numeral. -/
  | number (n : Numeral)
  /-- A text; without content if it is not UTF-8 or an escape names half of a pair. -/
  | string (s : Option String)
  /-- A list. -/
  | array (items : List Document)
  /-- The fields of an object in their order. -/
  | object (fields : List (Option String × Document))
  deriving Inhabited

namespace Document

/-! ## Lexical parts -/

/-- The characters with the numbers of some bytes. -/
def letters (bytes : List UInt8) : List Char := bytes.map fun b => Char.ofNat b.toNat

/-- A character that may stand between tokens. -/
def isSpace (c : Char) : Bool := c = ' ' || c = '\n' || c = '\t' || c = '\r'

/-- What follows leading spaces. -/
def skipSpace (cs : List Char) : List Char := cs.dropWhile isSpace

/-- What follows the literal `word`, if the text starts with it. -/
def expect (word : List Char) (cs : List Char) : Option (List Char) :=
  if word.isPrefixOf cs then some (cs.drop word.length) else none

/-- What a backslash and one more character stand for. -/
def simpleEscape : Char → Option Char
  | '"' => some '"'
  | '\\' => some '\\'
  | '/' => some '/'
  | 'b' => some '\x08'
  | 'f' => some '\x0c'
  | 'n' => some '\n'
  | 'r' => some '\r'
  | 't' => some '\t'
  | _ => none

/-- A piece of a text between quotes. -/
inductive Piece where
  /-- A byte, also one that is written as an escape. -/
  | byte (b : UInt8)
  /-- A 16-bit unit written as an escape. -/
  | unit (n : Nat)
  deriving DecidableEq, Repr

/-- The pieces up to the closing quote, after those of `read` (newest first), and what follows it.
A control character must be written as an escape. -/
def scanPieces (read : List Piece) : List Char → Option (List Piece × List Char)
  | [] => none
  | '"' :: rest => some (read.reverse, rest)
  | '\\' :: 'u' :: a :: b :: c :: d :: rest =>
    match Number.Hex.read [a, b, c, d] with
    | some n => scanPieces (.unit n :: read) rest
    | none => none
  | '\\' :: e :: rest =>
    match simpleEscape e with
    | some c => scanPieces (.byte c.toNat.toUInt8 :: read) rest
    | none => none
  | c :: rest => if c.toNat < 0x20 then none else scanPieces (.byte c.toNat.toUInt8 :: read) rest

/-- The first unit of a pair. -/
def isHighUnit (n : Nat) : Bool := 0xD800 ≤ n && n ≤ 0xDBFF

/-- The second unit of a pair. -/
def isLowUnit (n : Nat) : Bool := 0xDC00 ≤ n && n ≤ 0xDFFF

/-- The bytes of the scalar value with a number. -/
def unitBytes (n : Nat) : List UInt8 := Text.Utf8.encode (Char.ofNat n).toString

/-- The bytes of some pieces, after those of `read` (newest first), in which each first unit of a pair is
followed by a second one, and no second one stands alone. -/
def joinPieces (read : List UInt8) : List Piece → Option (List UInt8)
  | [] => some read.reverse
  | .byte b :: rest => joinPieces (b :: read) rest
  | .unit n :: .unit m :: rest =>
    if isHighUnit n then
      if isLowUnit m then
        joinPieces ((unitBytes (0x10000 + (n - 0xD800) * 0x400 + (m - 0xDC00))).reverse ++ read) rest
      else none
    else if isLowUnit n then none
    else joinPieces ((unitBytes n).reverse ++ read) (.unit m :: rest)
  | .unit n :: rest =>
    if isHighUnit n || isLowUnit n then none else joinPieces ((unitBytes n).reverse ++ read) rest

/-- The content of a text with these pieces. -/
def contentOf (pieces : List Piece) : Option String :=
  match (joinPieces [] pieces).map Text.Utf8.decode with
  | some (.ok cs) => some (String.ofList cs)
  | _ => none

/-- The text after an opening quote, and what follows the closing one. -/
def scanString (cs : List Char) : Option (Option String × List Char) :=
  (scanPieces [] cs).map fun (pieces, rest) => (contentOf pieces, rest)

/-- The digits at the start of a text, and what follows them. -/
def digits (cs : List Char) : List Char × List Char := (cs.takeWhile Char.isDigit,
  cs.dropWhile Char.isDigit)

/-- The digits after a point, of which there must be one. -/
def scanFraction (cs : List Char) : Option (Option (List Char) × List Char) :=
  match cs with
  | '.' :: rest =>
    let (ds, rest) := digits rest
    if ds.isEmpty then none else some (some ds, rest)
  | _ => some (none, cs)

/-- The sign and digits of an exponent, of which there must be one. -/
def scanExponent (cs : List Char) : Option (Option (Bool × List Char) × List Char) :=
  match cs with
  | c :: rest =>
    if c = 'e' ∨ c = 'E' then
      let (negative, rest) :=
        match rest with
        | '-' :: rest => (true, rest)
        | '+' :: rest => (false, rest)
        | _ => (false, rest)
      let (ds, rest) := digits rest
      if ds.isEmpty then none else some (some (negative, ds), rest)
    else some (none, cs)
  | [] => some (none, [])

/-- A numeral and what follows it.  A zero is the only digit before the point that may stand first
without being the only one. -/
def scanNumeral (cs : List Char) : Option (Numeral × List Char) :=
  let (negative, cs) :=
    match cs with
    | '-' :: rest => (true, rest)
    | _ => (false, cs)
  let (whole, rest) := digits cs
  if whole.isEmpty ∨ (whole.head? = some '0' ∧ 1 < whole.length) then none
  else
    (scanFraction rest).bind fun (fraction, rest) =>
      (scanExponent rest).map fun (exponent, rest) => (⟨negative, whole, fraction, exponent⟩, rest)

/-! ## Structure -/

mutual

/-- A document and what follows it; `fuel` bounds the number of parts read. -/
def scanWithin : Nat → List Char → Option (Document × List Char)
  | 0, _ => none
  | fuel + 1, cs =>
    match skipSpace cs with
    | '"' :: rest => (scanString rest).map fun (s, rest) => (.string s, rest)
    | '[' :: rest =>
      match skipSpace rest with
      | ']' :: rest => some (.array [], rest)
      | rest => scanItemsWithin fuel [] rest
    | '\x7b' :: rest =>
      match skipSpace rest with
      | '\x7d' :: rest => some (.object [], rest)
      | rest => scanFieldsWithin fuel [] rest
    | 'n' :: rest => (expect "ull".toList rest).map (.null, ·)
    | 't' :: rest => (expect "rue".toList rest).map (.bool true, ·)
    | 'f' :: rest => (expect "alse".toList rest).map (.bool false, ·)
    | cs => (scanNumeral cs).map fun (n, rest) => (.number n, rest)

/-- The items of a list after those of `read` (newest first), and what follows the list. -/
def scanItemsWithin : Nat → List Document → List Char → Option (Document × List Char)
  | 0, _, _ => none
  | fuel + 1, read, cs =>
    match scanWithin fuel cs with
    | none => none
    | some (d, rest) =>
      match skipSpace rest with
      | ',' :: rest => scanItemsWithin fuel (d :: read) rest
      | ']' :: rest => some (.array (d :: read).reverse, rest)
      | _ => none

/-- The fields of an object after those of `read` (newest first), and what follows the object. -/
def scanFieldsWithin :
    Nat → List (Option String × Document) → List Char → Option (Document × List Char)
  | 0, _, _ => none
  | fuel + 1, read, cs =>
    match skipSpace cs with
    | '"' :: rest =>
      match scanString rest with
      | none => none
      | some (key, rest) =>
        match skipSpace rest with
        | ':' :: rest =>
          match scanWithin fuel rest with
          | none => none
          | some (d, rest) =>
            match skipSpace rest with
            | ',' :: rest => scanFieldsWithin fuel ((key, d) :: read) rest
            | '\x7d' :: rest => some (.object ((key, d) :: read).reverse, rest)
            | _ => none
        | _ => none
    | _ => none

end

/-- The document of some bytes.  Every part takes a byte, so the number of bytes bounds the number of
parts. -/
def read (bytes : List UInt8) : Option Document :=
  match scanWithin (2 * bytes.length + 2) (letters bytes) with
  | some (d, rest) => if (skipSpace rest).isEmpty then some d else none
  | none => none

/-! ## Values -/

mutual

/-- The value of a document: every text has content and every numeral is in range.  Of repeated
fields the last one counts. -/
def value : Document → Option Json
  | .null => some .null
  | .bool b => some (.bool b)
  | .number n => n.value
  | .string s => s.map .str
  | .array items => (itemValues items []).map .arr
  | .object fields => (fieldValues fields []).map .obj

/-- The values of the items, after those of `read` (newest first). -/
def itemValues : List Document → List Json → Option (List Json)
  | [], read => some read.reverse
  | d :: rest, read =>
    match value d with
    | some v => itemValues rest (v :: read)
    | none => none

/-- The table `read` with the values of the fields. -/
def fieldValues : List (Option String × Document) → Table Json → Option (Table Json)
  | [], read => some read
  | (key, d) :: rest, read =>
    match key, value d with
    | some k, some v => fieldValues rest (read.insert k v)
    | _, _ => none

end

end Document

/-- The value of some bytes. -/
def read (bytes : List UInt8) : Option Json := (Document.read bytes).bind Document.value

end CodeAtlas.Json
