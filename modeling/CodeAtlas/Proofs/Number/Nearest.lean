import Mathlib.Tactic.Ring
import CodeAtlas.Proofs.Number.Rounding

/-!
# Rounding finds a nearest number

A ratio in the range of a format is rounded to a number of the format, and no number of the format is nearer
to the ratio.  The count of units of the last place is off by half a unit at most, so that no other count is
nearer.  Numbers with a larger last place are counts of the same units; those with a smaller one are below the
binade of the ratio, and so below a number that is not nearer either.

## Main definitions

* `CodeAtlas.Number.Datum.value?` — the number that a datum is.
* `CodeAtlas.Number.Binary32.Nearest` — no number of the format is nearer.

## Main results

* `CodeAtlas.Number.Format.Measured.abs_sub_le` — no number of a format is nearer than the rounded count.
* `CodeAtlas.Number.Format.exists_decode_round` — what a ratio in range is rounded to.
* `CodeAtlas.Number.Binary32.nearest_ofRatio` — a ratio in range is rounded to a nearest number.
* `CodeAtlas.Number.Binary32.Nearest.le`, `CodeAtlas.Number.Binary32.Nearest.ge` — a nearest number is not beyond
  any number of the format.
-/

namespace CodeAtlas.Number

/-- The number that a datum is, if it is one. -/
def Datum.value? : Datum → Option ℚ
  | .finite negative significand exponent =>
    some (if negative then -(significand * 2 ^ exponent) else significand * 2 ^ exponent)
  | _ => none

/-- A number is its absolute value, with a sign. -/
lemma Datum.exists_of_value? {d : Datum} {q : ℚ} (h : d.value? = some q) :
    ∃ negative u e, d = .finite negative u e ∧ |q| = u * 2 ^ e := by
  cases d with
  | finite negative u e =>
    have hpos : (0 : ℚ) ≤ u * 2 ^ e := by positivity
    refine ⟨negative, u, e, rfl, ?_⟩
    rw [← Option.some.inj h]
    split_ifs
    · rw [abs_neg, abs_of_nonneg hpos]
    · exact abs_of_nonneg hpos
  | infinite negative => cases h
  | nan => cases h

namespace Format

variable {f : Format} {num den n d : Nat} {q : ℚ} {e : Int}

/-! ## Counts -/

/-- The nearest count is off by half a unit at most.

**Proof sketch.** The ratio is its floor and a rest below one.  The rest is rounded up only from half a unit on, and
down only up to half a unit. -/
lemma abs_nearest_sub_le_half (hd : 0 < d) : |(nearest n d : ℚ) - n / d| ≤ 1 / 2 := by
  have hd' : (0 : ℚ) < d := by exact_mod_cast hd
  have hsum : (n / d : ℚ) = (n / d : Nat) + (n % d : Nat) / d := by
    rw [eq_comm, ← eq_sub_iff_add_eq', div_eq_iff hd'.ne', sub_mul, div_mul_cancel₀ _ hd'.ne', eq_sub_iff_add_eq']
    exact_mod_cast Nat.div_add_mod' n d
  have hrest : ((n % d : Nat) / d : ℚ) ≤ 1 := by
    rw [div_le_one hd']
    exact_mod_cast (Nat.mod_lt n hd).le
  have hrest' : (0 : ℚ) ≤ (n % d : Nat) / d := by positivity
  rw [hsum, abs_le]
  unfold nearest
  dsimp only
  split_ifs with hup
  · -- rounded up: the rest is half a unit or more
    have hhalf : (1 / 2 : ℚ) ≤ (n % d : Nat) / d := by
      rw [div_le_div_iff₀ two_pos hd', one_mul]
      exact_mod_cast (by omega : d ≤ n % d * 2)
    push_cast
    constructor
    · linarith
    · linarith
  · have hhalf : ((n % d : Nat) / d : ℚ) ≤ 1 / 2 := by
      rw [div_le_div_iff₀ hd' two_pos, one_mul]
      exact_mod_cast (by omega : n % d * 2 ≤ d)
    constructor
    · linarith
    · linarith

/-- **No other count is nearer.** -/
lemma abs_nearest_sub_le (hd : 0 < d) (k : Nat) : |(nearest n d : ℚ) - n / d| ≤ |(k : ℚ) - n / d| := by
  have herror := abs_nearest_sub_le_half (n := n) hd
  by_cases hk : nearest n d = k
  · rw [hk]
  · -- two counts are a unit apart, of which the nearest takes half at most
    have hapart : (1 : ℚ) ≤ |(nearest n d : ℚ) - k| := by
      have hint : (1 : Int) ≤ |(nearest n d : Int) - k| := Int.one_le_abs (sub_ne_zero.mpr (by exact_mod_cast hk))
      exact_mod_cast hint
    have htriangle := abs_sub_le (nearest n d : ℚ) (n / d) k
    rw [abs_sub_comm (n / d : ℚ)] at htriangle
    linarith

namespace Measured

/-- **No number of the format is nearer than the rounded count.**

**Proof sketch.** A number whose last place is not smaller than that of the ratio is a count of the same units.
Any other one is below the binade of the ratio, whose least number is such a count and not above the ratio. -/
theorem abs_sub_le (h : f.Measured q e n d) {u : Nat} {e' : Int} (hcanonical : f.Canonical u e') :
    |(nearest n d * 2 ^ e : ℚ) - q| ≤ |u * 2 ^ e' - q| := by
  have hcount : ∀ k : Nat, |(nearest n d * 2 ^ e : ℚ) - q| ≤ |k * 2 ^ e - q| := by
    intro k
    rw [h.ratio, ← sub_mul, ← sub_mul, abs_mul, abs_mul]
    exact mul_le_mul_of_nonneg_right (abs_nearest_sub_le h.pos k) (abs_nonneg _)
  rcases le_or_gt e e' with hle | hlt
  · obtain ⟨k, rfl⟩ : ∃ k : Nat, e' = e + k := ⟨(e' - e).toNat, by omega⟩
    have hunits : (u * 2 ^ (e + k) : ℚ) = (u * 2 ^ k : Nat) * 2 ^ e := by
      rw [zpow_add₀ two_ne_zero, zpow_natCast]
      push_cast
      ring
    rw [hunits]
    exact hcount _
  · have hleast := hcanonical.least_le
    have hu : (u : ℚ) < 2 ^ (f.fractionBits + 1) := by exact_mod_cast hcanonical.lt
    have hbelow : (u * 2 ^ e' : ℚ) ≤ 2 ^ f.fractionBits * 2 ^ e :=
      calc (u * 2 ^ e' : ℚ) ≤ 2 ^ (f.fractionBits + 1) * 2 ^ e' := by gcongr
        _ = 2 ^ f.fractionBits * 2 ^ (e' + 1) := by
            rw [zpow_add₀ two_ne_zero, zpow_one, pow_succ]
            ring
        _ ≤ 2 ^ f.fractionBits * 2 ^ e := by
            gcongr
            · exact one_le_two
            · omega
    have hbinade : (2 ^ f.fractionBits * 2 ^ e : ℚ) ≤ q := by
      have hzpow := h.zpow_le (by omega)
      rwa [zpow_add₀ two_ne_zero, zpow_natCast] at hzpow
    refine (hcount (2 ^ f.fractionBits)).trans ?_
    push_cast
    rw [abs_sub_comm, abs_of_nonneg (sub_nonneg.mpr hbinade), abs_sub_comm,
      abs_of_nonneg (sub_nonneg.mpr (hbelow.trans hbinade))]
    exact sub_le_sub_left hbelow q

/-- The rounded count is a number of the format, unless it is out of range; it may be that of the next binade.

**Proof sketch.** If rounding stays within the binade, the count and its exponent are those of the format.
Otherwise the count is the power of two above, which is half as many units of the next binade. -/
lemma exists_canonical (h : f.Measured q e n d) :
    ∃ u e', f.Canonical u e' ∧ f.magnitude u e' = f.magnitude (nearest n d) e ∧
      (u * 2 ^ e' : ℚ) = nearest n d * 2 ^ e := by
  have hleast := h.least_le
  have hle : nearest n d ≤ 2 ^ (f.fractionBits + 1) := nearest_le h.pos h.lt.le
  rcases Nat.lt_or_eq_of_le hle with hlt | heq
  · exact ⟨nearest n d, e, ⟨hleast, hlt, h.full.imp_right (le_nearest h.pos)⟩, rfl, rfl⟩
  · refine ⟨2 ^ f.fractionBits, e + 1, ⟨by omega, ?_, Or.inr le_rfl⟩, ?_, ?_⟩
    · exact Nat.pow_lt_pow_right one_lt_two (Nat.lt_succ_self _)
    · have hexponent : (e + 1 - f.leastExponent).toNat = (e - f.leastExponent).toNat + 1 := by omega
      rw [magnitude, magnitude, heq, hexponent, pow_succ, Nat.add_mul]
      omega
    · rw [heq, zpow_add₀ two_ne_zero, zpow_one, pow_succ]
      push_cast
      ring

end Measured

/-- **What a ratio in range is rounded to**: a number of the format with the given sign, such that no number of
the format is nearer.

**Proof sketch.** Zero is nearest to itself.  Any other ratio is rounded to the nearest count of units of its last
place.  In range this count is a number of the format, and no other one is nearer. -/
theorem exists_decode_round (negative : Bool) (hden : 0 < den)
    (hfinite : f.roundMagnitude num den < f.infinityBits) :
    ∃ u e, f.decode (f.round negative num den) = .finite negative u e ∧
      ∀ u' e', f.Canonical u' e' → |(u * 2 ^ e : ℚ) - num / den| ≤ |(u' * 2 ^ e' : ℚ) - num / den| := by
  rcases Nat.eq_zero_or_pos num with rfl | hnum
  · have hzero : f.Canonical 0 f.leastExponent := ⟨le_rfl, Nat.two_pow_pos _, Or.inl rfl⟩
    have hround : f.roundMagnitude 0 den = f.magnitude 0 f.leastExponent := by simp [roundMagnitude, magnitude]
    rw [hround] at hfinite
    refine ⟨0, f.leastExponent, ?_, fun u' e' _ => ?_⟩
    · unfold round
      rw [hround]
      exact decode_signed_magnitude hzero hfinite negative
    · rw [Nat.cast_zero, zero_mul, zero_div, sub_zero, abs_zero]
      exact abs_nonneg _
  · obtain ⟨e, n, d, hmeasured, hround⟩ := f.exists_measured hnum hden
    obtain ⟨u, e', hcanonical, hmagnitude, hvalue⟩ := hmeasured.exists_canonical
    have hunder : f.magnitude (nearest n d) e < f.infinityBits := by
      rw [hround, min_lt_iff] at hfinite
      exact hfinite.resolve_left (lt_irrefl _)
    rw [min_eq_right hunder.le, ← hmagnitude] at hround
    rw [← hmagnitude] at hunder
    refine ⟨u, e', ?_, fun u' e'' hcanonical' => ?_⟩
    · unfold round
      rw [hround]
      exact decode_signed_magnitude hcanonical hunder negative
    · rw [hvalue]
      exact hmeasured.abs_sub_le hcanonical'

end Format

namespace Binary32

variable {x y : Binary32} {q v w : ℚ}

/-- **A number that is nearest to `q`**: no number of the format is nearer. -/
def Nearest (x : Binary32) (q : ℚ) : Prop :=
  ∃ v, x.datum.value? = some v ∧ ∀ (y : Binary32) (w : ℚ), y.datum.value? = some w → |v - q| ≤ |w - q|

/-- A number that is nearest to `q` is not above a number of the format that is not below `q`. -/
lemma Nearest.le (h : x.Nearest q) (hx : x.datum.value? = some v) (hy : y.datum.value? = some w)
    (hle : q ≤ w) : v ≤ w := by
  obtain ⟨v', hv', hnearest⟩ := h
  obtain rfl : v' = v := Option.some.inj (hv'.symm.trans hx)
  have hdistance := (le_abs_self _).trans (hnearest y w hy)
  rw [abs_of_nonneg (sub_nonneg.mpr hle)] at hdistance
  linarith

/-- A number that is nearest to `q` is not below a number of the format that is not above `q`. -/
lemma Nearest.ge (h : x.Nearest q) (hx : x.datum.value? = some v) (hy : y.datum.value? = some w)
    (hle : w ≤ q) : w ≤ v := by
  obtain ⟨v', hv', hnearest⟩ := h
  obtain rfl : v' = v := Option.some.inj (hv'.symm.trans hx)
  have hdistance := (neg_abs_le _).trans' (neg_le_neg (hnearest y w hy))
  rw [abs_of_nonpos (sub_nonpos.mpr hle)] at hdistance
  linarith

/-- **What a ratio in range is rounded to**, with its sign. -/
lemma exists_datum_ofRatio (negative : Bool) {num den : Nat} (hden : 0 < den)
    (hrange : (num / den : ℚ) < 2 ^ 128 - 2 ^ 103) :
    ∃ u e, (ofRatio negative num den).datum = .finite negative u e ∧
      ∀ (y : Binary32) (w : ℚ), y.datum.value? = some w → |(u * 2 ^ e : ℚ) - num / den| ≤ |(|w|) - num / den| := by
  have hfinite := (isFinite_ofRatio_iff negative hden).mpr hrange
  rw [isFinite_iff, toNat_bits_ofRatio, Format.round_mod_signBit] at hfinite
  obtain ⟨u, e, hdecode, hnearest⟩ := Format.exists_decode_round negative hden hfinite
  refine ⟨u, e, ?_, fun y w hy => ?_⟩
  · unfold datum
    rw [toNat_bits_ofRatio, hdecode]
  · obtain ⟨negative', u', e', hdatum, hw⟩ := Datum.exists_of_value? hy
    have hbits : y.bits.toNat < 2 * Format.single.signBit := y.bits.toNat_lt
    rw [hw]
    exact hnearest u' e' (Format.canonical_of_decode hbits hdatum).1

/-- **A ratio in range is rounded to a nearest number.**

**Proof sketch.** The sign is set aside: the magnitude of the ratio is rounded to a nearest magnitude.  The rounded
number has the sign of the ratio, so their distance is that of their magnitudes, and to a number of the other sign
it is not less. -/
theorem nearest_ofRatio (num : Int) {den : Nat} (hden : 0 < den)
    (hrange : |(num / den : ℚ)| < 2 ^ 128 - 2 ^ 103) :
    (ofRatio (num < 0) num.natAbs den).Nearest (num / den) := by
  have hmagnitude : |(num / den : ℚ)| = num.natAbs / den := by
    rw [abs_div, Nat.abs_cast, Nat.cast_natAbs, Int.cast_abs]
  obtain ⟨u, e, hdatum, hnearest⟩ := exists_datum_ofRatio (num < 0) hden (hmagnitude ▸ hrange)
  rw [← hmagnitude] at hnearest
  have hden' : (0 : ℚ) < den := by exact_mod_cast hden
  refine ⟨_, by rw [hdatum, Datum.value?], fun y w hy => ?_⟩
  -- the ratio and its rounding have the same sign, so that their distance is that of their absolute values
  refine le_trans ?_ ((hnearest y w hy).trans (abs_abs_sub_abs_le_abs_sub w (num / den)))
  by_cases hneg : num < 0
  · have hratio : (num / den : ℚ) ≤ 0 := div_nonpos_of_nonpos_of_nonneg (by exact_mod_cast hneg.le) hden'.le
    rw [if_pos (decide_eq_true hneg), abs_of_nonpos hratio, ← abs_neg]
    exact le_of_eq (congrArg _ (by ring))
  · have hratio : (0 : ℚ) ≤ num / den := div_nonneg (by exact_mod_cast not_lt.mp hneg) hden'.le
    rw [if_neg (by simpa using hneg), abs_of_nonneg hratio]

end Binary32

end CodeAtlas.Number
