/-!
# Elapsed time

The text of a span of time: two decimals of the greatest unit that fits, rounded to nearest with ties
to the even digit.

## Main definitions

* `CodeAtlas.Elapsed` — a span of time.
* `CodeAtlas.Elapsed.text` — its text.
-/

namespace CodeAtlas

/-- A span of time in nanoseconds. -/
structure Elapsed where
  /-- The whole seconds. -/
  seconds : Nat
  /-- The nanoseconds beyond them. -/
  nanos : Nat
  deriving DecidableEq, Repr

namespace Elapsed

/-- `amount / unit` with two decimals, rounded to nearest, the even neighbour of two. -/
def hundredths (amount unit : Nat) : Nat :=
  let q := 100 * amount / unit
  let r := 100 * amount % unit
  if unit < 2 * r ∨ (unit = 2 * r ∧ q % 2 = 1) then q + 1 else q

/-- Hundredths as text with two decimals. -/
def hundredthsText (n : Nat) : String :=
  toString (n / 100) ++ "." ++ toString (n % 100 / 10) ++ toString (n % 10)

/-- The text of a span of time.  Zero is measured in nanoseconds. -/
def text (d : Elapsed) : String :=
  let total := d.seconds * 1000000000 + d.nanos
  if 1000000000 ≤ total then hundredthsText (hundredths total 1000000000) ++ "s"
  else if 1000000 ≤ total then hundredthsText (hundredths total 1000000) ++ "ms"
  else if 1000 ≤ total then hundredthsText (hundredths total 1000) ++ "µs"
  else hundredthsText (hundredths total 1) ++ "ns"

end Elapsed

end CodeAtlas
