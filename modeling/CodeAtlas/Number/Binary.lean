/-!
# Binary floating point, exactly

Values of the two interchange formats with 32 and 64 bits are kept as their bits.  Every operation
goes through the exact value: a datum is decoded to `significand * 2 ^ exponent`, computed with in
natural numbers, and rounded once, to nearest with ties to even.

## Main definitions

* `CodeAtlas.Number.Format` — how many bits hold the fraction and the exponent.
* `CodeAtlas.Number.Format.decode` — the exact value of some bits.
* `CodeAtlas.Number.Format.round` — the bits nearest to a ratio of natural numbers.
* `CodeAtlas.Number.Binary32`, `CodeAtlas.Number.Binary64` — the two formats as types, with the
  conversions between them.
-/

namespace CodeAtlas.Number

/-- An interchange format: the bits of the fraction and of the exponent. -/
structure Format where
  /-- The stored bits of the significand. -/
  fractionBits : Nat
  /-- The bits of the biased exponent. -/
  exponentBits : Nat
  deriving DecidableEq, Repr

/-- What some bits stand for. -/
inductive Datum where
  /-- The number `significand * 2 ^ exponent`, or its opposite. -/
  | finite (negative : Bool) (significand : Nat) (exponent : Int)
  /-- An infinity. -/
  | infinite (negative : Bool)
  /-- No number. -/
  | nan
  deriving DecidableEq, Repr

namespace Format

/-- The format with 32 bits. -/
def single : Format := ⟨23, 8⟩

/-- The format with 64 bits. -/
def double : Format := ⟨52, 11⟩

/-- The exponent of the last place of the smallest numbers. -/
def leastExponent (f : Format) : Int :=
  2 - (Nat.pow 2 (f.exponentBits - 1) : Nat) - f.fractionBits

/-- The bits of positive infinity, which are also the first that no finite magnitude has. -/
def infinityBits (f : Format) : Nat := (Nat.pow 2 f.exponentBits - 1) * Nat.pow 2 f.fractionBits

/-- The weight of the sign bit. -/
def signBit (f : Format) : Nat := Nat.pow 2 (f.fractionBits + f.exponentBits)

/-- The value that bits stand for. -/
def decode (f : Format) (bits : Nat) : Datum :=
  let negative := decide (f.signBit ≤ bits)
  let magnitude := bits % f.signBit
  let fraction := magnitude % Nat.pow 2 f.fractionBits
  let biased := magnitude / Nat.pow 2 f.fractionBits
  if magnitude < f.infinityBits then
    if biased = 0 then .finite negative fraction f.leastExponent
    else .finite negative (Nat.pow 2 f.fractionBits + fraction) (f.leastExponent + (biased - 1 : Nat))
  else if magnitude = f.infinityBits then .infinite negative
  else .nan

/-- The exponent of the greatest power of two that is at most `num / den`. -/
def floorLog2 (num den : Nat) : Int :=
  let guess : Int := (num.log2 : Int) - den.log2
  if den * Nat.pow 2 guess.toNat ≤ num * Nat.pow 2 (-guess).toNat then guess else guess - 1

/-- The integer nearest to `num / den`, the even one of two. -/
def nearest (num den : Nat) : Nat :=
  let q := num / den
  let r := num % den
  if den < 2 * r ∨ (den = 2 * r ∧ q % 2 = 1) then q + 1 else q

/-- The magnitude bits nearest to the positive ratio `num / den`.

The ratio is measured in units of the last place of its binade, or of the smallest numbers.  A
magnitude is the count of such units plus one full fraction for each binade below, so that a count
that rounds up to a power of two carries into the exponent by itself. -/
def roundMagnitude (f : Format) (num den : Nat) : Nat :=
  if num = 0 then 0
  else
    let exponent := max f.leastExponent (floorLog2 num den - f.fractionBits)
    let units := nearest (num * Nat.pow 2 (-exponent).toNat) (den * Nat.pow 2 exponent.toNat)
    min f.infinityBits ((exponent - f.leastExponent).toNat * Nat.pow 2 f.fractionBits + units)

/-- The bits nearest to `num / den`, or to its opposite. -/
def round (f : Format) (negative : Bool) (num den : Nat) : Nat :=
  (if negative then f.signBit else 0) + f.roundMagnitude num den

/-- The bits nearest to `significand * 2 ^ exponent`, or to its opposite. -/
def roundScaled (f : Format) (negative : Bool) (significand : Nat) (exponent : Int) : Nat :=
  f.round negative (significand * Nat.pow 2 exponent.toNat) (Nat.pow 2 (-exponent).toNat)

/-- The bits of some number that is none. -/
def nanBits (f : Format) : Nat := f.infinityBits + Nat.pow 2 (f.fractionBits - 1)

/-- The bits of a datum in the format, rounded. -/
def encode (f : Format) : Datum → Nat
  | .finite negative significand exponent => f.roundScaled negative significand exponent
  | .infinite negative => (if negative then f.signBit else 0) + f.infinityBits
  | .nan => f.nanBits

end Format

/-- A number with 32 bits. -/
structure Binary32 where
  /-- The bits, sign first. -/
  bits : UInt32
  deriving DecidableEq, Repr

/-- A number with 64 bits. -/
structure Binary64 where
  /-- The bits, sign first. -/
  bits : UInt64
  deriving DecidableEq, Repr

namespace Binary64

/-- The value of the bits. -/
def datum (x : Binary64) : Datum := Format.double.decode x.bits.toNat

/-- The number nearest to `num / den`, or to its opposite. -/
def ofRatio (negative : Bool) (num den : Nat) : Binary64 :=
  ⟨(Format.double.round negative num den).toUInt64⟩

/-- The number nearest to an integer. -/
def ofInt (i : Int) : Binary64 := ofRatio (i < 0) i.natAbs 1

/-- A number proper, neither infinite nor none. -/
def isFinite (x : Binary64) : Bool :=
  match x.datum with
  | .finite .. => true
  | _ => false

/-- The product, rounded; only for finite factors. -/
def mul (x y : Binary64) : Binary64 :=
  match x.datum, y.datum with
  | .finite s m e, .finite t n d =>
    ⟨(Format.double.roundScaled (s != t) (m * n) (e + d)).toUInt64⟩
  | _, _ => ⟨Format.double.nanBits.toUInt64⟩

/-- The quotient, rounded; only for finite numbers and a divisor that is not zero. -/
def div (x y : Binary64) : Binary64 :=
  match x.datum, y.datum with
  | .finite s m e, .finite t n d =>
    ofRatio (s != t) (m * Nat.pow 2 (e - d).toNat) (n * Nat.pow 2 (d - e).toNat)
  | _, _ => ⟨Format.double.nanBits.toUInt64⟩

/-- The number with the opposite sign. -/
def neg (x : Binary64) : Binary64 := ⟨x.bits ^^^ 0x8000000000000000⟩

end Binary64

namespace Binary32

/-- The value of the bits. -/
def datum (x : Binary32) : Datum := Format.single.decode x.bits.toNat

/-- The number nearest to `num / den`, or to its opposite. -/
def ofRatio (negative : Bool) (num den : Nat) : Binary32 :=
  ⟨(Format.single.round negative num den).toUInt32⟩

/-- The number nearest to an integer. -/
def ofInt (i : Int) : Binary32 := ofRatio (i < 0) i.natAbs 1

/-- The number nearest to one with 64 bits. -/
def ofBinary64 (x : Binary64) : Binary32 := ⟨(Format.single.encode x.datum).toUInt32⟩

/-- A number proper, neither infinite nor none. -/
def isFinite (x : Binary32) : Bool :=
  match x.datum with
  | .finite .. => true
  | _ => false

/-- The same number with 64 bits. -/
def toBinary64 (x : Binary32) : Binary64 := ⟨(Format.double.encode x.datum).toUInt64⟩

end Binary32

end CodeAtlas.Number
