import CodeAtlas.Glob.Token
import CodeAtlas.Text.Utf8

/-!
# Matching glob patterns

A pattern is matched against the bytes of a path.  What a token can stand for at the start of some
bytes is given by the remainders that it leaves; a pattern matches if some way through its tokens
leaves nothing.

Patterns that only speak of the name of a file do not match a path that leads to a directory above,
because such a path names no file.

## Main definitions

* `CodeAtlas.Glob.remainders` — what tokens can leave of some bytes.
* `CodeAtlas.Glob.Pattern` — a pattern ready for matching.
* `CodeAtlas.Glob.Pattern.isMatch` — the pattern matches a path.
-/

namespace CodeAtlas.Glob

/-- A path, as its bytes. -/
abbrev Bytes := List UInt8

/-- The byte of the separator. -/
def separator : UInt8 := 0x2F

/-- The bytes of a character. -/
def charBytes (c : Char) : Bytes := Text.Utf8.encode c.toString

/-- What follows `lead`, if the bytes start with it. -/
def dropLead : Bytes → Bytes → Option Bytes
  | [], bytes => some bytes
  | a :: lead, b :: bytes => if a = b then dropLead lead bytes else none
  | _ :: _, [] => none

/-- Everything that is left when bytes that satisfy `p` are taken away from the start. -/
def tails (p : UInt8 → Bool) : Bytes → List Bytes
  | [] => [[]]
  | b :: bytes => (b :: bytes) :: if p b then tails p bytes else []

/-- Everything that follows a separator. -/
def afterSeparators : Bytes → List Bytes
  | [] => []
  | b :: bytes =>
    if b = separator then bytes :: afterSeparators bytes else afterSeparators bytes

/-- The bytes that a range of characters stands for: those of the first character, all from its last byte
to the first byte of the last character, and those of the last character. -/
def inRange (b : UInt8) (r : Char × Char) : Bool :=
  let low := charBytes r.1
  let high := charBytes r.2
  low.contains b || high.contains b ||
    (r.1 != r.2 &&
      match low.getLast?, high.head? with
      | some l, some h => l ≤ b && b ≤ h
      | _, _ => false)

/-- One of several remainders, each once.  All of them are ends of the same bytes, so their lengths tell
them apart. -/
def distinct (rests : List Bytes) : List Bytes :=
  (rests.foldl (fun (seen : List (Nat × Bytes)) r =>
    if seen.any fun s => s.1 == r.length then seen else (r.length, r) :: seen) []).map Prod.snd

mutual

/-- The tokens stand for nothing at all: there are none, or only groups without any alternative. -/
def isVoid : List Token → Bool
  | [] => true
  | .alternates branches :: rest => areVoid branches && isVoid rest
  | _ :: _ => false

/-- All alternatives stand for nothing at all. -/
def areVoid : List (List Token) → Bool
  | [] => true
  | b :: rest => isVoid b && areVoid rest

end

mutual

/-- What a token can leave of some bytes.  Alternatives that stand for nothing do not count, and a group
of only such alternatives is passed over. -/
def remainder (style : Style) : Token → Bytes → List Bytes
  | .literal c, bytes => (dropLead (charBytes c) bytes).toList
  | .any, [] => []
  | .any, b :: bytes => if style.literalSeparator && b == separator then [] else [bytes]
  | .zeroOrMore, bytes => tails (fun b => !(style.literalSeparator && b == separator)) bytes
  | .recursivePrefix, bytes => bytes :: afterSeparators bytes
  | .recursiveSuffix, [] => []
  | .recursiveSuffix, b :: bytes => if b = separator then tails (fun _ => true) bytes else []
  | .recursiveZeroOrMore, [] => []
  | .recursiveZeroOrMore, b :: bytes =>
    if b = separator then bytes :: afterSeparators bytes else []
  | .charClass _ _, [] => []
  | .charClass negated ranges, b :: bytes =>
    if ranges.any (inRange b) != negated then [bytes] else []
  | .alternates branches, bytes =>
    if areVoid branches then [bytes] else distinct (branchRemainders style branches bytes)

/-- What one of the alternatives can leave of some bytes. -/
def branchRemainders (style : Style) : List (List Token) → Bytes → List Bytes
  | [], _ => []
  | b :: rest, bytes =>
    (if isVoid b then [] else remainders style b [bytes]) ++ branchRemainders style rest bytes

/-- What tokens in sequence can leave of any of the given bytes. -/
def remainders (style : Style) : List Token → List Bytes → List Bytes
  | [], starts => starts
  | t :: rest, starts =>
    remainders style rest (distinct (starts.flatMap fun bytes => remainder style t bytes))

end

/-! ## Patterns that speak of a file name -/

/-- The characters of tokens that are all literal. -/
def literals? : List Token → Option (List Char)
  | [] => some []
  | .literal c :: rest => (literals? rest).map (c :: ·)
  | _ :: _ => none

/-- Any leading components and then a fixed name. -/
def isNamed : List Token → Bool
  | .recursivePrefix :: rest =>
    match literals? rest with
    | some cs => !cs.isEmpty && !cs.contains '/'
    | none => false
  | _ => false

/-- Any name with a fixed extension. -/
def isExtension (style : Style) (tokens : List Token) : Bool :=
  let anywhere := !style.literalSeparator
  let (rest, free) :=
    match tokens with
    | .recursivePrefix :: rest => (rest, true)
    | _ => (tokens, anywhere)
  match rest with
  | .zeroOrMore :: .literal '.' :: ext =>
    match literals? ext with
    | some cs => free && !cs.contains '.' && !cs.contains '/'
    | none => false
  | _ => false

/-- A fixed text and then anything. -/
def isLeading (style : Style) (tokens : List Token) : Bool :=
  match tokens.getLast? with
  | some .zeroOrMore => !style.literalSeparator && (literals? tokens.dropLast).any (!·.isEmpty)
  | some .recursiveSuffix => (literals? tokens.dropLast).isSome
  | _ => false

/-- Anything and then a fixed text. -/
def isTrailing (style : Style) (tokens : List Token) : Bool :=
  let afterStar (rest : List Token) (lead : Bool) : Bool :=
    match rest with
    | .zeroOrMore :: rest => !style.literalSeparator && (literals? rest).any (!·.isEmpty)
    | [] => false
    | rest => (literals? rest).any fun cs => lead || cs ≠ ['/']
  match tokens with
  | .recursivePrefix :: rest => afterStar rest true
  | _ => afterStar tokens false

/-- The pattern ends with a fixed extension. -/
def endsWithExtension (tokens : List Token) : Bool :=
  let tail := tokens.reverse.takeWhile fun t =>
    match t with
    | .literal c => c ≠ '.' && c ≠ '/'
    | _ => false
  match tokens.reverse.drop tail.length with
  | .literal '.' :: _ => true
  | _ => false

/-- The pattern speaks of the name of a file: it fixes the name or its extension. -/
def speaksOfName (style : Style) (tokens : List Token) : Bool :=
  isNamed tokens ||
    ((literals? tokens).isNone &&
      (isExtension style tokens ||
        (!isLeading style tokens && !isTrailing style tokens && endsWithExtension tokens)))

/-! ## Matching -/

/-- A pattern ready for matching. -/
structure Pattern where
  /-- How it was written. -/
  style : Style
  /-- Its tokens. -/
  tokens : List Token
  deriving Repr, BEq

namespace Pattern

/-- The pattern of a text. -/
def ofString (style : Style) (text : String) : Except Fault Pattern :=
  (parse style text.toList).map fun tokens => ⟨style, tokens⟩

/-- The path leads to a directory above. -/
def namesNoFile (path : Bytes) : Bool :=
  ((path.reverse.takeWhile fun b => b ≠ separator) == [0x2E, 0x2E])

/-- The pattern matches the bytes of a path.  Two stars alone match everything. -/
def isMatch (p : Pattern) (path : Bytes) : Bool :=
  match p.tokens with
  | [.recursivePrefix] => true
  | tokens =>
    if namesNoFile path && speaksOfName p.style tokens then false
    else (remainders p.style tokens [path]).any List.isEmpty

end Pattern

end CodeAtlas.Glob
