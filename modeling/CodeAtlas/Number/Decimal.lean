import CodeAtlas.Number.Binary

/-!
# Decimal numerals

Decimal text of 64-bit numbers, and the number nearest to a decimal numeral.

The text of a number rests on its *shortest* digits: the fewest significant digits of any decimal
that rounds back to the number, and among those the nearest.  How the digits are laid out is the
business of whoever prints them; this module has two layouts.

## Main definitions

* `CodeAtlas.Number.Decimal` — a decimal `digits * 10 ^ exponent`.
* `CodeAtlas.Number.Decimal.nearest` — the number nearest to a decimal.
* `CodeAtlas.Number.Binary64.shortest` — the shortest digits of a positive number.
* `CodeAtlas.Number.Binary64.positional` — the text without an exponent.
* `CodeAtlas.Number.Binary64.scientific` — the text with an exponent for very large and very small
  numbers.
-/

namespace CodeAtlas.Number

/-- The decimal `digits * 10 ^ exponent`. -/
structure Decimal where
  /-- The significant digits, as one natural number. -/
  digits : Nat
  /-- The power of ten that the last digit counts. -/
  exponent : Int
  deriving DecidableEq, Repr

namespace Decimal

/-- The number of decimal digits of `n`; one for zero. -/
def length (n : Nat) : Nat := (Nat.toDigits 10 n).length

/-- The number nearest to a decimal, or to its opposite.  Decimals far outside the range of the
format need not be written out. -/
def nearest (negative : Bool) (d : Decimal) : Binary64 :=
  if d.digits = 0 then .ofRatio negative 0 1
  else if 400 < d.exponent then .ofRatio negative (Nat.pow 10 400) 1
  else if d.exponent + length d.digits < -400 then .ofRatio negative 0 1
  else .ofRatio negative (d.digits * Nat.pow 10 d.exponent.toNat) (Nat.pow 10 (-d.exponent).toNat)

/-- The decimal without trailing zero digits; `fuel` bounds the number of zeros dropped. -/
def trimmedWithin : Nat → Decimal → Decimal
  | 0, d => d
  | fuel + 1, d =>
    if d.digits % 10 = 0 ∧ d.digits ≠ 0 then trimmedWithin fuel ⟨d.digits / 10, d.exponent + 1⟩
    else d

/-- The decimal without trailing zero digits. -/
def trimmed (d : Decimal) : Decimal := trimmedWithin (length d.digits) d

end Decimal

namespace Binary64

/-- The exponent of the greatest power of ten that is at most `num / den`, searched downward from
`top`; `fuel` bounds the search. -/
def floorLog10Within (num den : Nat) : Nat → Int → Int
  | 0, top => top
  | fuel + 1, top =>
    if den * Nat.pow 10 top.toNat ≤ num * Nat.pow 10 (-top).toNat then top
    else floorLog10Within num den fuel (top - 1)

/-- The exponent of the greatest power of ten that is at most `num / den`. -/
def floorLog10 (num den : Nat) : Int :=
  let top : Int := (Decimal.length num : Int) - Decimal.length den + 1
  floorLog10Within num den 4 top

/-- The better of the two decimals with last place `10 ^ place` around `num / den` that round to
`x`, if there is one.  Of two equally near ones the even one is better. -/
def shortestAt (x : Binary64) (num den : Nat) (place : Int) : Option Decimal :=
  let n := num * Nat.pow 10 (-place).toNat
  let d := den * Nat.pow 10 place.toNat
  let below := n / d
  let above := below + 1
  let lower := (Decimal.nearest false ⟨below, place⟩).bits = x.bits ∧ below ≠ 0
  let upper := (Decimal.nearest false ⟨above, place⟩).bits = x.bits
  let rest := 2 * (n % d)
  if lower ∧ (¬ upper ∨ rest < d ∨ (rest = d ∧ below % 2 = 0)) then some ⟨below, place⟩
  else if upper then some ⟨above, place⟩
  else none

/-- The first of the grids from `place` down that has a decimal which rounds to `x`. -/
def shortestWithin (x : Binary64) (num den : Nat) : Nat → Int → Decimal
  | 0, place => ⟨num * Nat.pow 10 (-place).toNat / (den * Nat.pow 10 place.toNat), place⟩
  | fuel + 1, place =>
    (shortestAt x num den place).getD (shortestWithin x num den fuel (place - 1))

/-- The shortest digits of a positive finite number: of all decimals that round to it one with the
fewest digits, and the nearest of those. -/
def shortest (x : Binary64) : Decimal :=
  match x.datum with
  | .finite _ significand exponent =>
    let num := significand * Nat.pow 2 exponent.toNat
    let den := Nat.pow 2 (-exponent).toNat
    (shortestWithin ⟨x.bits &&& 0x7FFFFFFFFFFFFFFF⟩ num den 17 (floorLog10 num den)).trimmed
  | _ => ⟨0, 0⟩

/-- The digits with a point `shift` places after the first digit's left edge, padded with zeros. -/
def pointed (digits : List Char) (shift : Int) : List Char × List Char :=
  if shift ≤ 0 then (['0'], List.replicate (-shift).toNat '0' ++ digits)
  else
    let n := shift.toNat
    if digits.length ≤ n then (digits ++ List.replicate (n - digits.length) '0', [])
    else (digits.take n, digits.drop n)

/-- The sign that stands before the text of a number. -/
def signText (x : Binary64) : String := if x.bits < 0x8000000000000000 then "" else "-"

/-- The text without an exponent: a point only where a fraction follows it. -/
def positional (x : Binary64) : String :=
  match x.datum with
  | .nan => "NaN"
  | .infinite _ => x.signText ++ "inf"
  | .finite _ 0 _ => x.signText ++ "0"
  | .finite .. =>
    let d := x.shortest
    let digits := Nat.toDigits 10 d.digits
    let (whole, part) := pointed digits (digits.length + d.exponent)
    x.signText ++ String.ofList whole ++ (if part.isEmpty then "" else "." ++ String.ofList part)

/-- An exponent, with its sign and at least two digits. -/
def exponentText (e : Int) : String :=
  let digits := Nat.toDigits 10 e.natAbs
  let padded := if digits.length < 2 then '0' :: digits else digits
  (if e < 0 then "e-" else "e+") ++ String.ofList padded

/-- The text with a point in every positional numeral.  A number is positional from `10 ^ (-5)` up
to, and not including, `10 ^ 16`; any other has one digit before the point and an exponent. -/
def scientific (x : Binary64) : String :=
  match x.datum with
  | .nan => "NaN"
  | .infinite _ => x.signText ++ "inf"
  | .finite _ 0 _ => x.signText ++ "0.0"
  | .finite .. =>
    let d := x.shortest
    let digits := Nat.toDigits 10 d.digits
    let lead : Int := digits.length + d.exponent - 1
    if -5 ≤ lead ∧ lead < 16 then
      let (whole, part) := pointed digits (lead + 1)
      x.signText ++ String.ofList whole ++ "." ++
        (if part.isEmpty then "0" else String.ofList part)
    else
      let part := digits.drop 1
      x.signText ++ String.ofList (digits.take 1) ++
        (if part.isEmpty then "" else "." ++ String.ofList part) ++ exponentText lead

end Binary64

end CodeAtlas.Number
