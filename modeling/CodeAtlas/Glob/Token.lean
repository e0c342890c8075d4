/-!
# Glob patterns

A glob pattern is a sequence of tokens.  A star stands for any characters; two stars that fill a whole
component of the path stand for any number of components; a class stands for one of some characters, and
braces hold alternatives.

Patterns are written in one of two styles.  In the plain style a star may stand for characters that
contain a separator.  In ignore files it may not, and a class that is never closed is plain text.

## Main definitions

* `CodeAtlas.Glob.Token` — the tokens.
* `CodeAtlas.Glob.Fault` — why a text is no pattern.
* `CodeAtlas.Glob.parse` — the tokens of a text.
-/

namespace CodeAtlas.Glob

/-- A part of a pattern. -/
inductive Token where
  /-- A character that stands for itself. -/
  | literal (c : Char)
  /-- One byte. -/
  | any
  /-- Any number of bytes. -/
  | zeroOrMore
  /-- Any number of leading components. -/
  | recursivePrefix
  /-- All that is below a directory. -/
  | recursiveSuffix
  /-- Any number of components between two others. -/
  | recursiveZeroOrMore
  /-- One byte in, or not in, the ranges. -/
  | charClass (negated : Bool) (ranges : List (Char × Char))
  /-- One of some patterns. -/
  | alternates (branches : List (List Token))
  deriving Inhabited, Repr, BEq

/-- How a pattern is written. -/
structure Style where
  /-- One byte or a star never stands for a separator. -/
  literalSeparator : Bool
  /-- A class that is never closed is plain text. -/
  openClasses : Bool
  deriving DecidableEq, Repr

/-- The style of include and exclude patterns. -/
def Style.plain : Style := ⟨false, false⟩

/-- The style of ignore files. -/
def Style.ignoreFile : Style := ⟨true, true⟩

/-- Why a text is no pattern. -/
inductive Fault where
  /-- A class is not closed. -/
  | unclosedClass
  /-- The last character of a range comes before the first. -/
  | invalidRange (first last : Char)
  /-- A group is closed that was not opened. -/
  | unopenedGroup
  /-- A group is not closed. -/
  | unclosedGroup
  /-- The text ends with an escape character. -/
  | danglingEscape
  deriving DecidableEq, Repr

/-- The wording of a fault. -/
def Fault.message : Fault → String
  | .unclosedClass => "unclosed character class; missing ']'"
  | .invalidRange first last =>
    "invalid range; '" ++ first.toString ++ "' > '" ++ last.toString ++ "'"
  | .unopenedGroup =>
    "unopened alternate group; missing '\x7b' (maybe escape '\x7d' with '[\x7d]'?)"
  | .unclosedGroup =>
    "unclosed alternate group; missing '\x7d' (maybe escape '\x7b' with '[\x7b]'?)"
  | .danglingEscape => "dangling '\\'"

/-- The refusal of a text that is no pattern. -/
def refusal (pattern : String) (f : Fault) : String :=
  "error parsing glob '" ++ pattern ++ "': " ++ f.message

/-! ## Classes -/

/-- A class as far as it has been read. -/
structure ClassScan where
  /-- The ranges, newest first. -/
  ranges : List (Char × Char)
  /-- No character has been read yet. -/
  first : Bool
  /-- A hyphen waits for the end of its range. -/
  inRange : Bool

/-- The class with the last range extended to `c`. -/
def ClassScan.extend (s : ClassScan) (c : Char) : Except Fault ClassScan :=
  match s.ranges with
  | (low, _) :: rest =>
    if c < low then .error (.invalidRange low c) else .ok ⟨(low, c) :: rest, false, false⟩
  | [] => .ok ⟨[(c, c)], false, false⟩

/-- The class with one more character, which does not close it. -/
def ClassScan.push (s : ClassScan) (c : Char) : Except Fault ClassScan :=
  if c = '-' then
    if s.first then .ok ⟨[('-', '-')], false, false⟩
    else if s.inRange then s.extend '-'
    else .ok { s with inRange := true }
  else if s.inRange then s.extend c
  else .ok ⟨(c, c) :: s.ranges, false, false⟩

/-- The ranges of a class in order.  A hyphen that stands last is a character. -/
def ClassScan.finish (s : ClassScan) : List (Char × Char) :=
  (if s.inRange then ('-', '-') :: s.ranges else s.ranges).reverse

/-- The ranges up to the closing bracket and what follows it; none if there is no such bracket.  A
bracket that stands first is a character. -/
def scanClass (s : ClassScan) :
    List Char → Except Fault (Option (List (Char × Char) × List Char))
  | [] => .ok none
  | c :: rest =>
    if c = ']' ∧ !s.first then .ok (some (s.finish, rest))
    else
      match s.push c with
      | .error f => .error f
      | .ok s => scanClass s rest

/-! ## Patterns -/

/-- The surroundings of a group that is being read. -/
structure Group where
  /-- The alternatives already complete, newest first. -/
  branches : List (List Token)
  /-- The tokens before the group, newest first. -/
  outer : List Token

/-- A pattern as far as it has been read. -/
structure Scan where
  /-- The tokens of the innermost sequence, newest first. -/
  current : List Token := []
  /-- The groups that are open, innermost first. -/
  groups : List Group := []
  /-- A class was found that is never closed, so that brackets are plain text. -/
  bracketsLiteral : Bool := false

namespace Scan

/-- The pattern with one more token. -/
def push (s : Scan) (t : Token) : Scan := { s with current := t :: s.current }

/-- The pattern with two stars that do not fill a component. -/
def pushStars (s : Scan) : Scan := (s.push .zeroOrMore).push .zeroOrMore

/-- The pattern with two stars that fill a component, which replace the separator before them. -/
def pushRecursive (s : Scan) (last : Bool) : Scan :=
  match s.current with
  | .recursivePrefix :: _ => s
  | .recursiveSuffix :: _ => s
  | _ :: rest =>
    { s with current := (if last then .recursiveSuffix else .recursiveZeroOrMore) :: rest }
  | [] => s

/-- A group is being read. -/
def inGroup (s : Scan) : Bool := !s.groups.isEmpty

end Scan

/-- What two stars lead to, given the character before them and what follows: the new state, the
character that is now the previous one, and what is left. -/
def scanStars (s : Scan) (previous : Option Char) (rest : List Char) :
    Scan × Option Char × List Char :=
  if s.current.isEmpty then
    match rest with
    | [] => (s.push .recursivePrefix, none, [])
    | c :: after =>
      if c = '/' then (s.push .recursivePrefix, some '/', after)
      else (s.pushStars, some '*', rest)
  else if previous = some '/'
      ∨ (s.inGroup ∧ (previous = some ',' ∨ previous = some '\x7b')) then
    match rest with
    | [] => (s.pushRecursive true, none, [])
    | c :: after =>
      if c = '/' then (s.pushRecursive false, some '/', after)
      else if s.inGroup ∧ (c = ',' ∨ c = '\x7d') then (s.pushRecursive true, some '*', rest)
      else (s.pushStars, some '*', rest)
  else (s.pushStars, some '*', rest)

/-- The text read on from a state; `previous` is the character before it, and `fuel` bounds the number of
tokens. -/
def parseWithin (style : Style) : Nat → Scan → Option Char → List Char → Except Fault Scan
  | 0, s, _, _ => .ok s
  | _ + 1, s, _, [] => .ok s
  | fuel + 1, s, previous, c :: rest =>
    if c = '?' then parseWithin style fuel (s.push .any) (some c) rest
    else if c = '*' then
      match rest with
      | '*' :: after =>
        let (s, previous, rest) := scanStars s previous after
        parseWithin style fuel s previous rest
      | _ => parseWithin style fuel (s.push .zeroOrMore) (some c) rest
    else if c = '[' ∧ !s.bracketsLiteral then
      let (negated, body) :=
        match rest with
        | '!' :: after => (true, after)
        | '^' :: after => (true, after)
        | _ => (false, rest)
      match scanClass ⟨[], true, false⟩ body with
      | .error f => .error f
      | .ok (some (ranges, after)) =>
        parseWithin style fuel (s.push (.charClass negated ranges)) (some ']') after
      | .ok none =>
        if style.openClasses then
          parseWithin style fuel { s.push (.literal '[') with bracketsLiteral := true } (some c) rest
        else .error .unclosedClass
    else if c = '\x7b' then
      parseWithin style fuel { s with current := [], groups := ⟨[], s.current⟩ :: s.groups }
        (some c) rest
    else if c = '\x7d' then
      match s.groups with
      | [] => .error .unopenedGroup
      | g :: groups =>
        let branches := (s.current.reverse :: g.branches).reverse
        parseWithin style fuel { s with current := .alternates branches :: g.outer, groups }
          (some c) rest
    else if c = ',' then
      match s.groups with
      | [] => parseWithin style fuel (s.push (.literal ',')) (some c) rest
      | g :: groups =>
        parseWithin style fuel
          { s with
            current := []
            groups := ⟨s.current.reverse :: g.branches, g.outer⟩ :: groups }
          (some c) rest
    else if c = '\\' then
      match rest with
      | [] => .error .danglingEscape
      | d :: after => parseWithin style fuel (s.push (.literal d)) (some d) after
    else parseWithin style fuel (s.push (.literal c)) (some c) rest

/-- The tokens of a pattern.  Every token takes a character, so the number of characters bounds their
number. -/
def parse (style : Style) (pattern : List Char) : Except Fault (List Token) :=
  match parseWithin style (pattern.length + 1) {} none pattern with
  | .error f => .error f
  | .ok s => if s.groups.isEmpty then .ok s.current.reverse else .error .unclosedGroup

end CodeAtlas.Glob
