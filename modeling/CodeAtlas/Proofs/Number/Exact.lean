import Mathlib.Algebra.Order.Field.Power
import Mathlib.Algebra.Order.Field.Rat
import Mathlib.Tactic.NormNum
import Mathlib.Tactic.Positivity
import CodeAtlas.Number.Binary

/-!
# Numbers that a format holds exactly

A format keeps a number as a significand and the exponent of its last place, with the exponent as small
as the format allows or the significand as long.  In that form a number has one sequence of bits, which
are read back as the same number and to which the number is rounded, however it is written as a ratio.
Every number of the smaller format has such a form in the larger one, so that widening a number and
narrowing it again gives the number back.

## Main definitions

* `CodeAtlas.Number.Format.Canonical` — a number in the form in which a format keeps it.
* `CodeAtlas.Number.Format.magnitude` — the bits of a number in that form, but for the sign.

## Main results

* `CodeAtlas.Number.Format.floorLog2_eq` — the binary logarithm of a ratio.
* `CodeAtlas.Number.Format.decode_signed_magnitude`, `CodeAtlas.Number.Format.canonical_of_decode` —
  numbers and their bits.
* `CodeAtlas.Number.Format.roundMagnitude_eq` — a number that the format holds is rounded to its own
  bits.
* `CodeAtlas.Number.Binary32.ofBinary64_toBinary64` — widening loses nothing.
-/

namespace CodeAtlas.Number

namespace Format

/-! ## Powers of two -/

/-- A power of two as a ratio of natural numbers. -/
lemma two_zpow_eq_div (k : Int) : (2 : ℚ) ^ k = 2 ^ k.toNat / 2 ^ (-k).toNat := by
  rcases le_total 0 k with hk | hk
  · obtain ⟨n, rfl⟩ := Int.eq_ofNat_of_zero_le hk
    have hneg : (-(n : Int)).toNat = 0 := by omega
    rw [Int.toNat_natCast, hneg, pow_zero, div_one, zpow_natCast]
  · obtain ⟨n, hn⟩ := Int.eq_ofNat_of_zero_le (neg_nonneg.mpr hk)
    obtain rfl : k = -(n : Int) := by omega
    have hneg : (-(n : Int)).toNat = 0 := by omega
    rw [neg_neg, Int.toNat_natCast, hneg, pow_zero, zpow_neg, zpow_natCast, one_div]

/-- A number scaled by a power of two as a ratio of natural numbers. -/
lemma scaled_div_eq (u : Nat) (e : Int) :
    ((u * Nat.pow 2 e.toNat : Nat) / (Nat.pow 2 (-e).toNat : Nat) : ℚ) = u * 2 ^ e := by
  rw [two_zpow_eq_div e, Nat.pow_eq, Nat.pow_eq]
  push_cast
  rw [mul_div_assoc]

/-- Ratios scaled by a power of two are compared in natural numbers. -/
lemma two_zpow_le_div_iff {num den : Nat} (hden : 0 < den) (k : Int) :
    (2 : ℚ) ^ k ≤ num / den ↔ den * Nat.pow 2 k.toNat ≤ num * Nat.pow 2 (-k).toNat := by
  have hden' : (0 : ℚ) < den := by exact_mod_cast hden
  rw [two_zpow_eq_div, div_le_div_iff₀ (by positivity) hden', Nat.pow_eq, Nat.pow_eq,
    mul_comm (2 ^ k.toNat) (den : ℚ)]
  exact_mod_cast Iff.rfl

/-- The binary logarithm of a natural number. -/
lemma two_zpow_log2_le {n : Nat} (hn : 0 < n) :
    (2 : ℚ) ^ (n.log2 : Int) ≤ n ∧ (n : ℚ) < 2 ^ ((n.log2 : Int) + 1) := by
  constructor
  · rw [zpow_natCast]
    exact_mod_cast Nat.log2_self_le (by omega)
  · have hlt : n < 2 ^ (n.log2 + 1) := Nat.lt_log2_self
    exact_mod_cast hlt

/-- Between two neighbouring powers of two there is no other one. -/
lemma eq_of_two_zpow_le {q : ℚ} {k l : Int} (hk : (2 : ℚ) ^ k ≤ q) (hk' : q < 2 ^ (k + 1))
    (hl : (2 : ℚ) ^ l ≤ q) (hl' : q < 2 ^ (l + 1)) : k = l := by
  have hkl : k < l + 1 := (zpow_lt_zpow_iff_right₀ one_lt_two).mp (hk.trans_lt hl')
  have hlk : l < k + 1 := (zpow_lt_zpow_iff_right₀ one_lt_two).mp (hl.trans_lt hk')
  omega

/-- **The binary logarithm of a ratio**, rounded down.

**Proof sketch.** The logarithms of the parts differ by the wanted exponent or by one more, and
comparing the ratio with the power of two tells which. -/
lemma two_zpow_floorLog2_le {num den : Nat} (hnum : 0 < num) (hden : 0 < den) :
    (2 : ℚ) ^ floorLog2 num den ≤ num / den ∧ (num / den : ℚ) < 2 ^ (floorLog2 num den + 1) := by
  have hden' : (0 : ℚ) < den := by exact_mod_cast hden
  obtain ⟨hnumle, hnumlt⟩ := two_zpow_log2_le hnum
  obtain ⟨hdenle, hdenlt⟩ := two_zpow_log2_le hden
  unfold floorLog2
  dsimp only
  set guess : Int := (num.log2 : Int) - den.log2 with hguess
  split_ifs with htest
  · refine ⟨(two_zpow_le_div_iff hden guess).mpr htest, ?_⟩
    rw [div_lt_iff₀ hden']
    calc (num : ℚ) < 2 ^ ((num.log2 : Int) + 1) := hnumlt
      _ = 2 ^ (guess + 1) * 2 ^ (den.log2 : Int) := by
          rw [← zpow_add₀ two_ne_zero, hguess]
          congr 1
          omega
      _ ≤ 2 ^ (guess + 1) * den := by gcongr
  · constructor
    · rw [le_div_iff₀ hden']
      calc (2 : ℚ) ^ (guess - 1) * den ≤ 2 ^ (guess - 1) * 2 ^ ((den.log2 : Int) + 1) := by gcongr
        _ = 2 ^ (num.log2 : Int) := by
            rw [← zpow_add₀ two_ne_zero, hguess]
            congr 1
            omega
        _ ≤ num := hnumle
    · rw [sub_add_cancel]
      exact lt_of_not_ge fun hle => htest ((two_zpow_le_div_iff hden guess).mp hle)

/-- **The binary logarithm of a number** is that of its significand, counted on from its exponent.

**Proof sketch.** Both sides are exponents of a power of two between which and the next one the number lies, and
there is only one such power. -/
theorem floorLog2_eq {num den u : Nat} {e : Int} (hden : 0 < den) (hu : 0 < u)
    (h : (num / den : ℚ) = u * 2 ^ e) : floorLog2 num den = u.log2 + e := by
  have hpos : (0 : ℚ) < num / den := by
    rw [h]
    positivity
  have hnum : 0 < num := by
    rcases Nat.eq_zero_or_pos num with rfl | hnum
    · simp at hpos
    · exact hnum
  obtain ⟨hle, hlt⟩ := two_zpow_floorLog2_le hnum hden
  obtain ⟨hule, hult⟩ := two_zpow_log2_le hu
  refine eq_of_two_zpow_le hle hlt ?_ ?_
  · rw [h, zpow_add₀ two_ne_zero]
    gcongr
  · rw [h, add_right_comm, zpow_add₀ two_ne_zero]
    gcongr

/-! ## The form in which a format keeps a number -/

/-- **A number in the form in which a format keeps it**: `u` units of `2 ^ e`, where the exponent cannot
be smaller or the significand cannot be longer. -/
structure Canonical (f : Format) (u : Nat) (e : Int) : Prop where
  /-- The exponent is one of the format. -/
  least_le : f.leastExponent ≤ e
  /-- The significand fits the format. -/
  lt : u < 2 ^ (f.fractionBits + 1)
  /-- A significand that is not full has the least exponent. -/
  full : e = f.leastExponent ∨ 2 ^ f.fractionBits ≤ u

/-- The bits of a number in the form in which the format keeps it, but for the sign. -/
def magnitude (f : Format) (u : Nat) (e : Int) : Nat :=
  (e - f.leastExponent).toNat * 2 ^ f.fractionBits + u

/-- A magnitude with its sign. -/
def signed (f : Format) (negative : Bool) (m : Nat) : Nat := (if negative then f.signBit else 0) + m

/-- A significand is full or shorter. -/
lemma Canonical.log2_le {f : Format} {u : Nat} {e : Int} (h : f.Canonical u e) : u.log2 ≤ f.fractionBits := by
  rcases Nat.eq_zero_or_pos u with rfl | hu
  · simp
  · have := (Nat.log2_lt (by omega)).mpr h.lt
    omega

/-- **The exponent of the last place** is found from the logarithm. -/
lemma Canonical.max_eq {f : Format} {u : Nat} {e : Int} (h : f.Canonical u e) (hu : 0 < u) :
    max f.leastExponent ((u.log2 : Int) + e - f.fractionBits) = e := by
  have hlog := h.log2_le
  have hleast := h.least_le
  rcases h.full with he | hfull
  · omega
  · have : f.fractionBits ≤ u.log2 := (Nat.le_log2 (by omega)).mpr hfull
    omega

/-! ## Reading bits -/

/-- No finite magnitude reaches the sign. -/
lemma infinityBits_lt_signBit (f : Format) : f.infinityBits < f.signBit := by
  simp only [infinityBits, signBit, Nat.pow_eq]
  rw [pow_add, mul_comm (2 ^ f.fractionBits)]
  exact Nat.mul_lt_mul_of_pos_right (Nat.sub_lt (Nat.two_pow_pos _) one_pos) (Nat.two_pow_pos _)

/-- A sign and a magnitude are read apart. -/
lemma signed_parts (f : Format) (negative : Bool) {m : Nat} (hm : m < f.signBit) :
    decide (f.signBit ≤ f.signed negative m) = negative ∧ f.signed negative m % f.signBit = m := by
  cases negative with
  | false =>
    simp only [signed, Bool.false_eq_true, if_false, Nat.zero_add]
    exact ⟨decide_eq_false (by omega), Nat.mod_eq_of_lt hm⟩
  | true =>
    simp only [signed, if_true]
    exact ⟨decide_eq_true (by omega), by rw [Nat.add_mod_left, Nat.mod_eq_of_lt hm]⟩

/-- Bits are put together from their sign and their magnitude. -/
lemma eq_signed {f : Format} {bits : Nat} (h : bits < 2 * f.signBit) :
    bits = f.signed (decide (f.signBit ≤ bits)) (bits % f.signBit) := by
  unfold signed
  by_cases hsign : f.signBit ≤ bits
  · have hmod : bits % f.signBit = bits - f.signBit := by
      rw [Nat.mod_eq_sub_mod hsign, Nat.mod_eq_of_lt (by omega)]
    rw [decide_eq_true hsign, if_pos rfl, hmod]
    omega
  · rw [decide_eq_false hsign, if_neg Bool.false_ne_true, Nat.mod_eq_of_lt (by omega), Nat.zero_add]

/-- **Bits that stand for a number** hold it in the form in which the format keeps it.

**Proof sketch.** By the biased exponent.  If it is zero, the fraction is the significand and the exponent is the
least one; otherwise the significand has one bit more, which the magnitude carries into the exponent. -/
lemma canonical_of_decode {f : Format} {bits u : Nat} {e : Int} {negative : Bool}
    (hbits : bits < 2 * f.signBit) (h : f.decode bits = .finite negative u e) :
    f.Canonical u e ∧ f.magnitude u e < f.infinityBits ∧ bits = f.signed negative (f.magnitude u e) := by
  have hwhole := eq_signed hbits
  have hpos : 0 < 2 ^ f.fractionBits := Nat.two_pow_pos _
  have hdiv := Nat.div_add_mod (bits % f.signBit) (2 ^ f.fractionBits)
  have hmod := Nat.mod_lt (bits % f.signBit) hpos
  unfold decode at h
  simp only [Nat.pow_eq] at h
  generalize bits % f.signBit = m at h hwhole hdiv hmod
  split_ifs at h with hfinite hbiased
  · -- the biased exponent is zero: the significand need not be full
    obtain ⟨rfl, rfl, rfl⟩ := Datum.finite.inj h
    rw [hbiased, Nat.mul_zero, Nat.zero_add] at hdiv
    have hmagnitude : f.magnitude (m % 2 ^ f.fractionBits) f.leastExponent = m := by
      simp [magnitude, hdiv]
    rw [hmagnitude]
    exact ⟨⟨le_rfl, by rw [pow_succ]; omega, Or.inl rfl⟩, hfinite, hwhole⟩
  · obtain ⟨rfl, rfl, rfl⟩ := Datum.finite.inj h
    obtain ⟨k, hk⟩ : ∃ k, m / 2 ^ f.fractionBits = k + 1 :=
      Nat.exists_eq_succ_of_ne_zero hbiased
    have hmagnitude : f.magnitude (2 ^ f.fractionBits + m % 2 ^ f.fractionBits)
        (f.leastExponent + ((m / 2 ^ f.fractionBits - 1 : Nat) : Int)) = m := by
      have hexponent : (f.leastExponent + ((m / 2 ^ f.fractionBits - 1 : Nat) : Int)
          - f.leastExponent).toNat = k := by omega
      rw [hk, Nat.mul_add, Nat.mul_one, Nat.mul_comm] at hdiv
      rw [magnitude, hexponent]
      omega
    rw [hmagnitude]
    exact ⟨⟨by omega, by rw [pow_succ]; omega, Or.inr (by omega)⟩, hfinite, hwhole⟩

/-- **A number in the form in which the format keeps it is read back from its bits.**

**Proof sketch.** By whether the significand is full.  If not, the exponent is the least one and the bits are the
significand itself; if so, its first bit adds one to the exponent and the other bits are the fraction. -/
lemma decode_signed_magnitude {f : Format} {u : Nat} {e : Int} (hcanonical : f.Canonical u e)
    (hfinite : f.magnitude u e < f.infinityBits) (negative : Bool) :
    f.decode (f.signed negative (f.magnitude u e)) = .finite negative u e := by
  obtain ⟨hsign, hparts⟩ := f.signed_parts negative (hfinite.trans f.infinityBits_lt_signBit)
  have hpos : 0 < 2 ^ f.fractionBits := Nat.two_pow_pos _
  have hlt := hcanonical.lt
  have hleast := hcanonical.least_le
  rw [pow_succ] at hlt
  unfold decode
  dsimp only
  rw [hsign, hparts, if_pos hfinite]
  simp only [Nat.pow_eq]
  rcases Nat.lt_or_ge u (2 ^ f.fractionBits) with hshort | hlong
  · have he : e = f.leastExponent := hcanonical.full.resolve_right (by omega)
    have hmagnitude : f.magnitude u e = u := by simp [magnitude, he]
    rw [hmagnitude, if_pos (Nat.div_eq_of_lt hshort), Nat.mod_eq_of_lt hshort, he]
  · -- a full significand carries its first bit into the exponent
    obtain ⟨r, rfl⟩ := Nat.exists_eq_add_of_le hlong
    have hr : r < 2 ^ f.fractionBits := by omega
    have hmagnitude : f.magnitude (2 ^ f.fractionBits + r) e =
        r + ((e - f.leastExponent).toNat + 1) * 2 ^ f.fractionBits := by
      rw [magnitude, Nat.add_mul, Nat.one_mul]
      omega
    have hdiv : f.magnitude (2 ^ f.fractionBits + r) e / 2 ^ f.fractionBits =
        (e - f.leastExponent).toNat + 1 := by
      rw [hmagnitude, Nat.add_mul_div_right _ _ hpos, Nat.div_eq_of_lt hr, Nat.zero_add]
    have hmod : f.magnitude (2 ^ f.fractionBits + r) e % 2 ^ f.fractionBits = r := by
      rw [hmagnitude, Nat.add_mul_mod_self_right, Nat.mod_eq_of_lt hr]
    rw [hdiv, hmod, if_neg (Nat.succ_ne_zero _)]
    congr 1
    omega

/-! ## Rounding -/

/-- A multiple is divided without a rest. -/
lemma nearest_mul_right (u : Nat) {den : Nat} (hden : 0 < den) : nearest (u * den) den = u := by
  unfold nearest
  simp only [Nat.mul_mod_left, Nat.mul_div_cancel _ hden]
  split_ifs with h
  · omega
  · rfl

/-- **A number that the format holds is rounded to its own bits**, however it is written as a ratio.

**Proof sketch.** Zero is kept.  Otherwise the binary logarithm of the ratio is that of the number, so the unit of
its last place is that of the format or the least one.  The ratio is a whole count of these units, and nothing is
rounded. -/
theorem roundMagnitude_eq {f : Format} {num den u : Nat} {e : Int} (hcanonical : f.Canonical u e)
    (hfinite : f.magnitude u e < f.infinityBits) (hden : 0 < den)
    (h : (num / den : ℚ) = u * 2 ^ e) : f.roundMagnitude num den = f.magnitude u e := by
  have hden' : (0 : ℚ) < den := by exact_mod_cast hden
  unfold roundMagnitude
  rcases Nat.eq_zero_or_pos u with rfl | hu
  · -- the number is zero, and its exponent the least one
    have hnum : num = 0 := by
      rw [Nat.cast_zero, zero_mul, div_eq_zero_iff] at h
      rcases h with h | h
      · exact_mod_cast h
      · exact absurd h hden'.ne'
    have hpos : 0 < 2 ^ f.fractionBits := Nat.two_pow_pos _
    have he : e = f.leastExponent := hcanonical.full.resolve_right (by omega)
    rw [if_pos hnum, magnitude, he]
    simp
  · have hnum : num ≠ 0 := by
      rintro rfl
      have hpos : (0 : ℚ) < u * 2 ^ e := by positivity
      rw [← h] at hpos
      simp at hpos
    have hunits : num * Nat.pow 2 (-e).toNat = u * (den * Nat.pow 2 e.toNat) := by
      have hscale : (0 : ℚ) < 2 ^ (-e).toNat := by positivity
      rw [two_zpow_eq_div, div_eq_iff hden'.ne', ← mul_div_assoc, div_mul_eq_mul_div,
        eq_div_iff hscale.ne'] at h
      rw [Nat.pow_eq, Nat.pow_eq]
      have h' : (num * 2 ^ (-e).toNat : ℚ) = u * (den * 2 ^ e.toNat) := by
        rw [h, mul_assoc, mul_comm (2 ^ e.toNat : ℚ)]
      exact_mod_cast h'
    rw [if_neg hnum]
    dsimp only
    have hunit : 0 < den * Nat.pow 2 e.toNat := Nat.mul_pos hden (Nat.two_pow_pos _)
    rw [floorLog2_eq hden hu h, hcanonical.max_eq hu, hunits, nearest_mul_right u hunit]
    exact min_eq_right hfinite.le

/-- A number that the format holds is rounded to its own bits, however it is scaled. -/
lemma encode_finite_eq {f : Format} {u u' : Nat} {e e' : Int} (hcanonical : f.Canonical u e)
    (hfinite : f.magnitude u e < f.infinityBits) (h : (u' * 2 ^ e' : ℚ) = u * 2 ^ e) (negative : Bool) :
    f.encode (.finite negative u' e') = f.signed negative (f.magnitude u e) := by
  have hden : 0 < Nat.pow 2 (-e').toNat := Nat.two_pow_pos _
  have hratio : ((u' * Nat.pow 2 e'.toNat : Nat) / (Nat.pow 2 (-e').toNat : Nat) : ℚ) = u * 2 ^ e :=
    (scaled_div_eq u' e').trans h
  unfold encode roundScaled round signed
  dsimp only
  rw [roundMagnitude_eq hcanonical hfinite hden hratio]

/-! ## The two formats -/

lemma leastExponent_single : single.leastExponent = -149 := by decide

lemma leastExponent_double : double.leastExponent = -1074 := by decide

lemma infinityBits_single : single.infinityBits = 255 * 2 ^ 23 := by decide

lemma infinityBits_double : double.infinityBits = 2047 * 2 ^ 52 := by decide

/-- **The larger format holds every number of the smaller one.**

**Proof sketch.** The significand is shifted until it is full in the larger format, which has room for it; the
exponent falls by as much, and stays above the least one and below that of an infinity. -/
lemma exists_canonical_double {u : Nat} {e : Int} (hcanonical : single.Canonical u e)
    (hfinite : single.magnitude u e < single.infinityBits) :
    ∃ u' e', double.Canonical u' e' ∧ double.magnitude u' e' < double.infinityBits ∧
      (u' * 2 ^ e' : ℚ) = u * 2 ^ e := by
  have hleast := hcanonical.least_le
  have hfraction : single.fractionBits = 23 := rfl
  rw [infinityBits_single, magnitude, leastExponent_single, hfraction] at hfinite
  rw [leastExponent_single] at hleast
  rcases Nat.eq_zero_or_pos u with rfl | hu
  · refine ⟨0, double.leastExponent, ⟨le_rfl, by positivity, Or.inl rfl⟩, ?_, by simp⟩
    rw [magnitude, sub_self, infinityBits_double]
    simp
  · -- the significand is made as long as the larger format allows
    have hlog : u.log2 ≤ 23 := hcanonical.log2_le
    obtain ⟨k, hk⟩ : ∃ k, u.log2 + k = 52 := ⟨52 - u.log2, by omega⟩
    have hlow : 2 ^ 52 ≤ u * 2 ^ k := by
      rw [← hk, pow_add]
      exact Nat.mul_le_mul_right _ (Nat.log2_self_le (by omega))
    have hhigh : u * 2 ^ k < 2 ^ 53 := by
      rw [show 53 = u.log2 + 1 + k by omega, pow_add]
      exact Nat.mul_lt_mul_of_pos_right Nat.lt_log2_self (Nat.two_pow_pos k)
    refine ⟨u * 2 ^ k, e - k, ⟨?_, hhigh, Or.inr hlow⟩, ?_, ?_⟩
    · rw [leastExponent_double]
      omega
    · have hexponent : (e - k - double.leastExponent).toNat ≤ 1179 := by
        rw [leastExponent_double]
        omega
      calc double.magnitude (u * 2 ^ k) (e - k)
          < 1179 * 2 ^ 52 + 2 ^ 53 :=
            Nat.add_lt_add_of_le_of_lt (Nat.mul_le_mul_right (2 ^ 52) hexponent) hhigh
        _ ≤ double.infinityBits := by
            rw [infinityBits_double]
            norm_num
    · rw [Nat.cast_mul, Nat.cast_pow, Nat.cast_ofNat, mul_assoc, ← zpow_natCast,
        ← zpow_add₀ two_ne_zero, add_sub_cancel]

end Format

namespace Binary32

/-- A finite number is one that its format keeps. -/
lemma exists_canonical {x : Binary32} (hx : x.isFinite = true) :
    ∃ negative u e, x.datum = .finite negative u e ∧ Format.single.Canonical u e ∧
      Format.single.magnitude u e < Format.single.infinityBits ∧
      x.bits.toNat = Format.single.signed negative (Format.single.magnitude u e) := by
  have hbits : x.bits.toNat < 2 * Format.single.signBit := x.bits.toNat_lt
  obtain ⟨negative, u, e, hdatum⟩ : ∃ negative u e, x.datum = .finite negative u e := by
    unfold isFinite at hx
    split at hx
    · exact ⟨_, _, _, ‹_›⟩
    · cases hx
  exact ⟨negative, u, e, hdatum, Format.canonical_of_decode hbits hdatum⟩

/-- **Widening loses nothing**: a finite number is given back when it is narrowed again.

**Proof sketch.** Both formats hold the number, and each rounds it to its own bits. -/
theorem ofBinary64_toBinary64 {x : Binary32} (hx : x.isFinite = true) : ofBinary64 x.toBinary64 = x := by
  obtain ⟨negative, u, e, hdatum, hcanonical, hfinite, hbits⟩ := exists_canonical hx
  obtain ⟨u', e', hcanonical', hfinite', hvalue⟩ := Format.exists_canonical_double hcanonical hfinite
  have hwide : x.toBinary64.datum = .finite negative u' e' := by
    have hlt : Format.double.signed negative (Format.double.magnitude u' e') < 2 ^ 64 := by
      have hmagnitude := hfinite'.trans Format.double.infinityBits_lt_signBit
      have hsign : Format.double.signBit = 2 ^ 63 := rfl
      unfold Format.signed
      split_ifs
      · omega
      · omega
    unfold toBinary64 Binary64.datum
    rw [hdatum, Format.encode_finite_eq hcanonical' hfinite' hvalue.symm, Nat.toUInt64_eq,
      UInt64.toNat_ofNat_of_lt' hlt]
    exact Format.decode_signed_magnitude hcanonical' hfinite' negative
  unfold ofBinary64
  rw [hwide, Format.encode_finite_eq hcanonical hfinite hvalue, ← hbits]
  simp

end Binary32

end CodeAtlas.Number
