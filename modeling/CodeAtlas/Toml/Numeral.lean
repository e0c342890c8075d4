import CodeAtlas.Number.Decimal
import CodeAtlas.Number.Hex
import CodeAtlas.Number.Word
import CodeAtlas.Toml.Value

/-!
# Numbers, dates and times in TOML

Integers in four bases, numbers with a fraction or an exponent, and moments.  Single underscores may
divide the digits of a number.

## Main definitions

* `CodeAtlas.Toml.scanMoment` — a date, a time or both.
* `CodeAtlas.Toml.scanFloat`, `CodeAtlas.Toml.scanInteger` — numbers.
* `CodeAtlas.Toml.scanNumeral` — any of them.
-/

namespace CodeAtlas.Toml

open CodeAtlas.Number

/-! ## Numbers -/

/-- The digits of a base, after those of `read` (newest first), and what follows them.  An underscore
must stand between two digits. -/
def moreDigits (isDigit : Char → Bool) (read : List Char) :
    List Char → Option (List Char × List Char)
  | [] => some (read.reverse, [])
  | ['_'] => none
  | '_' :: c :: rest => if isDigit c then moreDigits isDigit (c :: read) rest else none
  | c :: rest =>
    if isDigit c then moreDigits isDigit (c :: read) rest else some (read.reverse, c :: rest)

/-- At least one digit of a base, and what follows the digits. -/
def scanDigits (isDigit : Char → Bool) : List Char → Option (List Char × List Char)
  | [] => none
  | c :: rest => if isDigit c then moreDigits isDigit [c] rest else none

/-- A sign, if there is one: whether it is a minus, and what follows. -/
def scanSign : List Char → Bool × List Char
  | '+' :: rest => (false, rest)
  | '-' :: rest => (true, rest)
  | cs => (false, cs)

/-- The digits before a point, and what follows them.  A zero that stands first stands alone. -/
def scanWhole : List Char → Option (List Char × List Char)
  | '0' :: rest => some (['0'], rest)
  | cs => scanDigits Char.isDigit cs

/-- The number that digits of a base below seventeen stand for. -/
def natural (base : Nat) (digits : List Char) : Nat :=
  digits.foldl (fun n c => base * n + (Hex.value? c).getD 0) 0

/-- An exponent, if there is one, and what follows it. -/
def scanExponent (cs : List Char) : Option (Int × List Char) :=
  match cs with
  | c :: rest =>
    if c = 'e' ∨ c = 'E' then
      let (negative, rest) := scanSign rest
      (scanDigits Char.isDigit rest).map fun (digits, rest) =>
        let n : Int := natural 10 digits
        (if negative then -n else n, rest)
    else some (0, cs)
  | [] => some (0, [])

/-- The number with the digits, unless it is greater than every finite number. -/
def float? (negative : Bool) (digits : List Char) (exponent : Int) : Option Value :=
  let x := Decimal.nearest negative ⟨natural 10 digits, exponent⟩
  if x.isFinite || negative then some (.float x) else none

/-- A number with a fraction or an exponent, and what follows it. -/
def scanDecimal (cs : List Char) : Option (Value × List Char) :=
  let (negative, cs) := scanSign cs
  match scanWhole cs with
  | some (whole, '.' :: rest) =>
    match scanDigits Char.isDigit rest with
    | none => none
    | some (part, rest) =>
      match scanExponent rest with
      | none => none
      | some (e, rest) =>
        (float? negative (whole ++ part) (e - part.length)).map (·, rest)
  | some (whole, c :: rest) =>
    if c = 'e' ∨ c = 'E' then
      match scanExponent (c :: rest) with
      | none => none
      | some (e, rest) => (float? negative whole e).map (·, rest)
    else none
  | _ => none

/-- The infinities and the value that is no number. -/
def scanSpecial (cs : List Char) : Option (Value × List Char) :=
  match scanSign cs with
  | (negative, 'i' :: 'n' :: 'f' :: rest) =>
    some (.float ⟨if negative then 0xFFF0000000000000 else 0x7FF0000000000000⟩, rest)
  | (_, 'n' :: 'a' :: 'n' :: rest) => some (.float ⟨0x7FF8000000000000⟩, rest)
  | _ => none

/-- A number that is no integer, and what follows it. -/
def scanFloat (cs : List Char) : Option (Value × List Char) :=
  match scanDecimal cs with
  | some found => some found
  | none => scanSpecial cs

/-- The integer, if it has 64 bits. -/
def integer? (i : Int) : Option Value :=
  if Word.isSigned i then some (.integer i) else none

/-- The digits of a base, and what follows them. -/
def scanBased (base : Nat) (cs : List Char) : Option (Value × List Char) :=
  match scanDigits (fun c => ((Hex.value? c).any (· < base))) cs with
  | none => none
  | some (digits, rest) => (integer? (natural base digits)).map (·, rest)

/-- An integer, and what follows it. -/
def scanInteger : List Char → Option (Value × List Char)
  | '0' :: 'x' :: rest => scanBased 16 rest
  | '0' :: 'o' :: rest => scanBased 8 rest
  | '0' :: 'b' :: rest => scanBased 2 rest
  | cs =>
    let (negative, cs) := scanSign cs
    match scanWhole cs with
    | none => none
    | some (digits, rest) =>
      let n : Int := natural 10 digits
      (integer? (if negative then -n else n)).map (·, rest)

/-! ## Dates and times -/

/-- A number of exactly so many digits, and what follows it. -/
def scanFixed (count : Nat) (cs : List Char) : Option (Nat × List Char) :=
  let digits := cs.take count
  if digits.length = count ∧ digits.all Char.isDigit then some (natural 10 digits, cs.drop count)
  else none

/-- A number of two digits between two bounds, and what follows it. -/
def scanPair (least greatest : Nat) (cs : List Char) : Option (Nat × List Char) :=
  match scanFixed 2 cs with
  | some (n, rest) => if least ≤ n ∧ n ≤ greatest then some (n, rest) else none
  | none => none

/-- The number of days of a month. -/
def daysIn (year month : Nat) : Nat :=
  if month = 2 then
    if year % 4 = 0 ∧ (year % 100 ≠ 0 ∨ year % 400 = 0) then 29 else 28
  else if month = 4 ∨ month = 6 ∨ month = 9 ∨ month = 11 then 30
  else 31

/-- What follows a date. -/
def skipDate (cs : List Char) : Option (List Char) :=
  match scanFixed 4 cs with
  | some (year, '-' :: rest) =>
    match scanPair 1 12 rest with
    | some (month, '-' :: rest) => (scanPair 1 (daysIn year month) rest).map Prod.snd
    | _ => none
  | _ => none

/-- What follows a time of day.  A minute may have a leap second. -/
def skipTime (cs : List Char) : Option (List Char) :=
  match scanPair 0 23 cs with
  | some (_, ':' :: rest) =>
    match scanPair 0 59 rest with
    | some (_, ':' :: rest) =>
      match scanPair 0 60 rest with
      | some (_, '.' :: rest) =>
        if rest.head?.any Char.isDigit then some (rest.dropWhile Char.isDigit) else none
      | some (_, rest) => some rest
      | none => none
    | _ => none
  | _ => none

/-- What follows the distance from universal time, if it is given. -/
def skipOffset (cs : List Char) : Option (List Char) :=
  match cs with
  | c :: rest =>
    if c = 'Z' ∨ c = 'z' then some rest
    else if c = '+' ∨ c = '-' then
      match scanPair 0 23 rest with
      | some (_, ':' :: rest) => (scanPair 0 59 rest).map Prod.snd
      | _ => none
    else some cs
  | [] => some []

/-- What follows a date and, if one is given, a time. -/
def skipMoment (cs : List Char) : Option (List Char) :=
  match skipDate cs with
  | none => skipTime cs
  | some [] => some []
  | some (c :: rest) =>
    if c = 'T' ∨ c = 't' then (skipTime rest).bind skipOffset
    else if c = ' ' ∧ rest.head?.any Char.isDigit then (skipTime rest).bind skipOffset
    else some (c :: rest)

/-- A date, a time or both, and what follows. -/
def scanMoment (cs : List Char) : Option (Value × List Char) :=
  (skipMoment cs).map fun rest =>
    (.moment (String.ofList (cs.take (cs.length - rest.length))), rest)

/-- A moment or a number, and what follows it. -/
def scanNumeral (cs : List Char) : Option (Value × List Char) :=
  match scanMoment cs with
  | some found => some found
  | none =>
    match scanFloat cs with
    | some found => some found
    | none => scanInteger cs

end CodeAtlas.Toml
