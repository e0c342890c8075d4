/-!
# Machine words

The integers that 64 bits can hold, with and without a sign.
-/

namespace CodeAtlas.Number.Word

/-- The least integer with a sign. -/
def leastSigned : Int := -9223372036854775808

/-- The greatest integer with a sign. -/
def greatestSigned : Int := 9223372036854775807

/-- The greatest integer without a sign. -/
def greatestUnsigned : Nat := 18446744073709551615

/-- The integer fits a word with a sign. -/
def isSigned (i : Int) : Bool := leastSigned ≤ i && i ≤ greatestSigned

end CodeAtlas.Number.Word
