import CodeAtlas.Number.Hex

/-!
# Lexical parts of TOML

Spaces, comments, the four kinds of quoted text, and keys.

A quoted text on one line stands between single marks; between triple marks it may run over several
lines.  Double marks allow escapes, apostrophes do not.

## Main definitions

* `CodeAtlas.Toml.skipBlank`, `CodeAtlas.Toml.skipLoose`, `CodeAtlas.Toml.lineEnd?` — what may stand
  between tokens and at the end of a line.
* `CodeAtlas.Toml.scanText` — a quoted text.
* `CodeAtlas.Toml.scanKey` — a key and what follows it.
-/

namespace CodeAtlas.Toml

/-! ## Spaces and comments -/

/-- A space inside a line. -/
def isBlank (c : Char) : Bool := c = ' ' || c = '\t'

/-- A character that may stand in a comment or a literal text: no control character but the tab. -/
def isPlain (c : Char) : Bool := c = '\t' || (0x20 ≤ c.toNat && c.toNat ≠ 0x7F)

/-- What follows leading blanks. -/
def skipBlank (cs : List Char) : List Char := cs.dropWhile isBlank

/-- What follows the spaces, line breaks and comments at the start; `comment` if the text starts
inside a comment. -/
def skipLoose (comment : Bool) : List Char → List Char
  | [] => []
  | '\n' :: cs => skipLoose false cs
  | '\r' :: '\n' :: cs => skipLoose false cs
  | c :: cs =>
    if comment then
      if isPlain c then skipLoose true cs else c :: cs
    else if isBlank c then skipLoose false cs
    else if c = '#' then skipLoose true cs
    else c :: cs

/-- What follows a line break. -/
def lineBreak? : List Char → Option (List Char)
  | '\n' :: cs => some cs
  | '\r' :: '\n' :: cs => some cs
  | _ => none

/-- What follows the end of a line, if only blanks and a comment stand before it. -/
def lineEnd? (cs : List Char) : Option (List Char) :=
  let rest :=
    match skipBlank cs with
    | '#' :: rest => rest.dropWhile isPlain
    | rest => rest
  if rest.isEmpty then some [] else lineBreak? rest

/-! ## Quoted text -/

/-- What a backslash and one more character stand for. -/
def simpleEscape : Char → Option Char
  | '"' => some '"'
  | '\\' => some '\\'
  | 'b' => some '\x08'
  | 'f' => some '\x0c'
  | 'n' => some '\n'
  | 'r' => some '\r'
  | 't' => some '\t'
  | _ => none

/-- The scalar value with a hexadecimal number. -/
def scalar? (digits : List Char) : Option Char :=
  match Number.Hex.read digits with
  | some n => if n.isValidChar then some (Char.ofNat n) else none
  | none => none

/-- The text up to the closing mark, after that of `read` (newest first), and what follows. -/
def scanBasic (read : List Char) : List Char → Option (String × List Char)
  | [] => none
  | '"' :: rest => some (String.ofList read.reverse, rest)
  | '\\' :: 'u' :: a :: b :: c :: d :: rest =>
    match scalar? [a, b, c, d] with
    | some x => scanBasic (x :: read) rest
    | none => none
  | '\\' :: 'U' :: a :: b :: c :: d :: e :: f :: g :: h :: rest =>
    match scalar? [a, b, c, d, e, f, g, h] with
    | some x => scanBasic (x :: read) rest
    | none => none
  | '\\' :: e :: rest =>
    match simpleEscape e with
    | some x => scanBasic (x :: read) rest
    | none => none
  | c :: rest => if isPlain c then scanBasic (c :: read) rest else none

/-- Up to two marks that stand directly before the closing ones belong to the text. -/
def closeLong (mark : Char) (read rest : List Char) : String × List Char :=
  match rest with
  | a :: b :: more =>
    if a = mark ∧ b = mark then (String.ofList (mark :: mark :: read).reverse, more)
    else if a = mark then (String.ofList (mark :: read).reverse, b :: more)
    else (String.ofList read.reverse, rest)
  | [a] =>
    if a = mark then (String.ofList (mark :: read).reverse, [])
    else (String.ofList read.reverse, rest)
  | [] => (String.ofList read.reverse, [])

/-- Where a scan stands with respect to a backslash at the end of a line. -/
inductive Joint where
  /-- At no such backslash. -/
  | absent
  /-- After the backslash, before the line break. -/
  | pending
  /-- After the line break, before the next visible character. -/
  | joined
  deriving DecidableEq, Repr

/-- The text up to the closing triple mark, after that of `read` (newest first), and what follows.
A backslash at the end of a line drops all space up to the next visible character. -/
def scanLongBasic (joint : Joint) (read : List Char) : List Char → Option (String × List Char)
  | [] => none
  | '\n' :: rest =>
    if joint = .absent then scanLongBasic .absent ('\n' :: read) rest
    else scanLongBasic .joined read rest
  | '\r' :: '\n' :: rest =>
    if joint = .absent then scanLongBasic .absent ('\n' :: read) rest
    else scanLongBasic .joined read rest
  | '"' :: '"' :: '"' :: rest =>
    if joint = .pending then none else some (closeLong '"' read rest)
  | '\\' :: 'u' :: a :: b :: c :: d :: rest =>
    if joint = .pending then none
    else
      match scalar? [a, b, c, d] with
      | some x => scanLongBasic .absent (x :: read) rest
      | none => none
  | '\\' :: 'U' :: a :: b :: c :: d :: e :: f :: g :: h :: rest =>
    if joint = .pending then none
    else
      match scalar? [a, b, c, d, e, f, g, h] with
      | some x => scanLongBasic .absent (x :: read) rest
      | none => none
  | '\\' :: '\n' :: rest => if joint = .pending then none else scanLongBasic .joined read rest
  | '\\' :: '\r' :: '\n' :: rest =>
    if joint = .pending then none else scanLongBasic .joined read rest
  | '\\' :: e :: rest =>
    if joint = .pending then none
    else if isBlank e then scanLongBasic .pending read rest
    else
      match simpleEscape e with
      | some x => scanLongBasic .absent (x :: read) rest
      | none => none
  | c :: rest =>
    if joint ≠ .absent ∧ isBlank c then scanLongBasic joint read rest
    else if joint = .pending ∨ ¬ isPlain c then none
    else scanLongBasic .absent (c :: read) rest

/-- The text up to the closing apostrophe, after that of `read` (newest first), and what follows. -/
def scanLiteral (read : List Char) : List Char → Option (String × List Char)
  | [] => none
  | '\'' :: rest => some (String.ofList read.reverse, rest)
  | c :: rest => if isPlain c then scanLiteral (c :: read) rest else none

/-- The text up to the closing triple apostrophe, after that of `read` (newest first), and what
follows. -/
def scanLongLiteral (read : List Char) : List Char → Option (String × List Char)
  | [] => none
  | '\n' :: rest => scanLongLiteral ('\n' :: read) rest
  | '\r' :: '\n' :: rest => scanLongLiteral ('\n' :: read) rest
  | '\'' :: '\'' :: '\'' :: rest => some (closeLong '\'' read rest)
  | c :: rest => if isPlain c then scanLongLiteral (c :: read) rest else none

/-- A quoted text and what follows it.  A line break directly after opening triple marks does not
count. -/
def scanText : List Char → Option (String × List Char)
  | '"' :: '"' :: '"' :: rest => scanLongBasic .absent [] ((lineBreak? rest).getD rest)
  | '"' :: rest => scanBasic [] rest
  | '\'' :: '\'' :: '\'' :: rest => scanLongLiteral [] ((lineBreak? rest).getD rest)
  | '\'' :: rest => scanLiteral [] rest
  | _ => none

/-! ## Keys -/

/-- A character of a key without quotes. -/
def isBare (c : Char) : Bool := c.isAlphanum || c = '_' || c = '-'

/-- One part of a key, and what follows it. -/
def scanPart (cs : List Char) : Option (String × List Char) :=
  match cs with
  | '"' :: rest => scanBasic [] rest
  | '\'' :: rest => scanLiteral [] rest
  | _ =>
    let bare := cs.takeWhile isBare
    if bare.isEmpty then none else some (String.ofList bare, cs.dropWhile isBare)

/-- The greatest number of parts of a key, and of lists and tables inside one another. -/
def maxDepth : Nat := 79

/-- A key of at most so many parts, and what follows it and the blanks after it. -/
def scanKeyWithin : Nat → List Char → Option (List String × List Char)
  | 0, _ => none
  | parts + 1, cs =>
    match scanPart (skipBlank cs) with
    | none => none
    | some (part, rest) =>
      match skipBlank rest with
      | '.' :: rest => (scanKeyWithin parts rest).map fun (more, rest) => (part :: more, rest)
      | rest => some ([part], rest)

/-- A key, and what follows it and the blanks after it. -/
def scanKey (cs : List Char) : Option (List String × List Char) := scanKeyWithin maxDepth cs

end CodeAtlas.Toml
