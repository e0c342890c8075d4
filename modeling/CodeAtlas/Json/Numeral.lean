import CodeAtlas.Json.Value

/-!
# JSON numerals

A numeral is kept as it is written until its value is asked for, because a value that nobody asks
for may be out of range.

The value of a numeral without point and exponent is the integer itself as long as it fits 64 bits,
signed or unsigned.  Any other numeral is scaled in two rounded steps: the leading digits that fit 64
bits are rounded to a number, which is then multiplied or divided by a rounded power of ten.  The
digits that do not fit count only for their place.

## Main definitions

* `CodeAtlas.Json.Numeral` — the parts of a numeral.
* `CodeAtlas.Json.Numeral.value` — its value, if it is in range.
-/

namespace CodeAtlas.Json

open CodeAtlas.Number

/-- The parts of a numeral. -/
structure Numeral where
  /-- A minus sign stands first. -/
  negative : Bool
  /-- The digits before the point. -/
  whole : List Char
  /-- The digits after the point, if there is one. -/
  fraction : Option (List Char)
  /-- The sign and the digits of the exponent, if there is one. -/
  exponent : Option (Bool × List Char)
  deriving DecidableEq, Repr

namespace Numeral

/-- The value of a decimal digit. -/
def digit (c : Char) : Nat := c.toNat - 48

/-- The number that the digits stand for. -/
def natural (digits : List Char) : Nat := digits.foldl (fun n c => 10 * n + digit c) 0

/-- The leading digits of the whole part that fit 64 bits, and how many are left over. -/
def scanWhole (n : Nat) : List Char → Nat × Nat
  | [] => (n, 0)
  | c :: cs =>
    if 10 * n + digit c ≤ Word.greatestUnsigned then scanWhole (10 * n + digit c) cs
    else (n, cs.length + 1)

/-- The digits of the fraction appended to `n` as long as the result fits 64 bits, and how many were
appended. -/
def scanFraction (n places : Nat) : List Char → Nat × Nat
  | [] => (n, places)
  | c :: cs =>
    if 10 * n + digit c ≤ Word.greatestUnsigned then scanFraction (10 * n + digit c) (places + 1) cs
    else (n, places)

/-- The rounded power of ten. -/
def powerOfTen (k : Nat) : Binary64 := .ofRatio false (Nat.pow 10 k) 1

/-- The greatest power of ten that is in range. -/
def greatestPower : Nat := 308

/-- `x` divided by `10 ^ k`, at most `greatestPower` powers at a time; `fuel` bounds the number of
divisions. -/
def scaleDown : Nat → Binary64 → Nat → Binary64
  | 0, x, _ => x
  | fuel + 1, x, k =>
    if k ≤ greatestPower then x.div (powerOfTen k)
    else scaleDown fuel (x.div (powerOfTen greatestPower)) (k - greatestPower)

/-- The number `significand * 10 ^ exponent`, if it is in range.  A number that has become zero stays
zero, so three divisions are as good as any number of them. -/
def scaled (significand : Nat) (exponent : Int) : Option Binary64 :=
  let x := Binary64.ofRatio false significand 1
  if significand = 0 then some x
  else if exponent < 0 then
    some (scaleDown 3 x (min exponent.natAbs (2 * greatestPower)))
  else if exponent.natAbs ≤ greatestPower then
    let y := x.mul (powerOfTen exponent.natAbs)
    if y.isFinite then some y else none
  else none

/-- The numeral's value as a number that is no integer. -/
def float (n : Numeral) : Option Json :=
  let (head, dropped) := scanWhole 0 n.whole
  let (significand, places) := scanFraction head 0 (n.fraction.getD [])
  let given : Int :=
    match n.exponent with
    | none => 0
    | some (negative, digits) =>
      if negative then -(natural digits : Int) else natural digits
  (scaled significand (given + dropped - places)).map fun x =>
    .float (if n.negative then x.neg else x)

/-- The value of the numeral, if it is in range. -/
def value (n : Numeral) : Option Json :=
  if n.fraction.isNone ∧ n.exponent.isNone then
    let magnitude : Int := natural n.whole
    let i := if n.negative then -magnitude else magnitude
    if (n.negative ∧ magnitude = 0) ∨ i < leastInt ∨ greatestInt < i then n.float
    else some (.int i)
  else n.float

end Numeral

end CodeAtlas.Json
