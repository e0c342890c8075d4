/-!
# Hexadecimal text

Fixed-width lower-case hexadecimal numerals, and reading them back.
-/

namespace CodeAtlas.Number.Hex

/-- The digit for a value below sixteen. -/
def digit (n : Nat) : Char := if n < 10 then Char.ofNat (48 + n) else Char.ofNat (87 + n)

/-- The value of a digit, of either case. -/
def value? (c : Char) : Option Nat :=
  if '0' ≤ c ∧ c ≤ '9' then some (c.toNat - 48)
  else if 'a' ≤ c ∧ c ≤ 'f' then some (c.toNat - 87)
  else if 'A' ≤ c ∧ c ≤ 'F' then some (c.toNat - 55)
  else none

/-- The last `width` digits of `n`, before those of `tail`. -/
def digitsBefore (tail : List Char) : Nat → Nat → List Char
  | 0, _ => tail
  | width + 1, n => digitsBefore (digit (n % 16) :: tail) width (n / 16)

/-- The last `width` digits of `n`. -/
def render (width n : Nat) : String := String.ofList (digitsBefore [] width n)

/-- The shortest numeral of `n`. -/
def renderShort (n : Nat) : String := render (n.log2 / 4 + 1) n

/-- The number that the digits, after those already read, stand for. -/
def readFrom (n : Nat) : List Char → Option Nat
  | [] => some n
  | c :: cs => (value? c).bind fun d => readFrom (16 * n + d) cs

/-- The number that a nonempty numeral stands for. -/
def read (cs : List Char) : Option Nat := if cs.isEmpty then none else readFrom 0 cs

/-- The bytes that pairs of digits stand for, after those of `read` (newest first). -/
def bytesFrom (read : List UInt8) : List Char → Option (List UInt8)
  | [] => some read.reverse
  | [_] => none
  | c :: d :: cs =>
    match value? c, value? d with
    | some m, some n => bytesFrom ((16 * m + n).toUInt8 :: read) cs
    | _, _ => none

/-- The bytes that pairs of digits stand for. -/
def bytes (cs : List Char) : Option (List UInt8) := bytesFrom [] cs

end CodeAtlas.Number.Hex
