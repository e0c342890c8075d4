import Mathlib.Tactic.FieldSimp
import Mathlib.Tactic.Linarith
import CodeAtlas.Proofs.Number.Exact

/-!
# Where rounding leads

A ratio is measured in units of a last place and rounded to the nearest count of units.  Rounding never passes a
number that the format holds, so it keeps order; and it leads out of the format exactly from half a unit above
its greatest number on.

## Main definitions

* `CodeAtlas.Number.Format.Measured` — a ratio, measured in units of its last place.
* `CodeAtlas.Number.Format.overflowBound` — the first number that is rounded to infinity.
* `CodeAtlas.Number.Datum.magnitude?` — how large a number is.

## Main results

* `CodeAtlas.Number.Format.exists_measured` — how a ratio is rounded.
* `CodeAtlas.Number.Format.le_roundMagnitude`, `CodeAtlas.Number.Format.roundMagnitude_le` — rounding does not
  pass a number that the format holds.
* `CodeAtlas.Number.Format.roundMagnitude_lt_infinityBits_iff` — which ratios are rounded to a number.
* `CodeAtlas.Number.Binary32.isFinite_ofBinary64_iff` — which numbers can be narrowed.
* `CodeAtlas.Number.Binary64.isFinite_div` — division by a number of at least one.
-/

namespace CodeAtlas.Number

/-- The absolute value of a datum, if it is a number. -/
def Datum.magnitude? : Datum → Option ℚ
  | .finite _ significand exponent => some (significand * 2 ^ exponent)
  | _ => none

namespace Format

variable {f : Format} {num den : Nat}

/-! ## The nearest count -/

/-- The nearest count is not less than a count that is not too large. -/
lemma le_nearest {u n d : Nat} (hd : 0 < d) (h : u * d ≤ n) : u ≤ nearest n d := by
  have hfloor : u ≤ n / d := (Nat.le_div_iff_mul_le hd).mpr h
  unfold nearest
  dsimp only
  split_ifs
  · omega
  · exact hfloor

/-- The nearest count is at most one from whose upper half the ratio keeps away. -/
lemma nearest_le_of_lt {u n d : Nat} (hd : 0 < d) (h : 2 * n < (2 * u + 1) * d) : nearest n d ≤ u := by
  have hsum := Nat.div_add_mod n d
  have hrest := Nat.mod_lt n hd
  have hfloor : n / d ≤ u := by
    rw [← Nat.lt_succ_iff, Nat.div_lt_iff_lt_mul hd]
    rw [Nat.succ_mul]
    rw [Nat.add_mul, Nat.mul_assoc, Nat.one_mul] at h
    omega
  unfold nearest
  dsimp only
  rcases Nat.lt_or_eq_of_le hfloor with hlt | heq
  · split_ifs
    · omega
    · omega
  · rw [heq, Nat.mul_comm] at hsum
    rw [Nat.add_mul, Nat.mul_assoc, Nat.one_mul] at h
    split_ifs with hup
    · omega
    · omega

/-- The nearest count is at most one that is not too small. -/
lemma nearest_le {u n d : Nat} (hd : 0 < d) (h : n ≤ u * d) : nearest n d ≤ u := by
  apply nearest_le_of_lt hd
  rw [Nat.add_mul, Nat.mul_assoc, Nat.one_mul]
  omega

/-- **Half a unit above an odd count is rounded up**, as is everything beyond. -/
lemma lt_nearest_of_le {u n d : Nat} (hd : 0 < d) (hodd : u % 2 = 1) (h : (2 * u + 1) * d ≤ 2 * n) :
    u < nearest n d := by
  have hsum := Nat.div_add_mod n d
  rw [Nat.add_mul, Nat.mul_assoc, Nat.one_mul] at h
  have hfloor : u ≤ n / d := (Nat.le_div_iff_mul_le hd).mpr (by omega)
  unfold nearest
  dsimp only
  rcases Nat.lt_or_eq_of_le hfloor with hlt | heq
  · split_ifs
    · omega
    · exact hlt
  · rw [← heq, Nat.mul_comm] at hsum
    rw [← heq]
    split_ifs with hup
    · omega
    · omega

/-! ## Ratios in units -/

/-- **A ratio, measured in units of its last place**: it is `n / d` units of `2 ^ e`, where the exponent cannot be
smaller or the count of units is as long as the format allows. -/
structure Measured (f : Format) (q : ℚ) (e : Int) (n d : Nat) : Prop where
  /-- The count of units is a ratio. -/
  pos : 0 < d
  /-- It measures the given ratio. -/
  ratio : q = n / d * 2 ^ e
  /-- The exponent is one of the format. -/
  least_le : f.leastExponent ≤ e
  /-- The count of units is not too long for the format. -/
  lt : n < 2 ^ (f.fractionBits + 1) * d
  /-- A count that is too short has the least exponent. -/
  full : e = f.leastExponent ∨ 2 ^ f.fractionBits * d ≤ n

namespace Measured

variable {q : ℚ} {e : Int} {n d : Nat}

/-- The ratio is less than any power of two that is too long for the format. -/
lemma lt_zpow (h : f.Measured q e n d) : q < 2 ^ ((f.fractionBits : Int) + 1 + e) := by
  have hd : (0 : ℚ) < d := by exact_mod_cast h.pos
  have hn : (n : ℚ) < 2 ^ (f.fractionBits + 1) * d := by exact_mod_cast h.lt
  rw [h.ratio, zpow_add₀ two_ne_zero]
  apply mul_lt_mul_of_pos_right _ (by positivity)
  rw [div_lt_iff₀ hd]
  exact_mod_cast hn

/-- A ratio beyond the smallest numbers is not too short. -/
lemma zpow_le (h : f.Measured q e n d) (he : e ≠ f.leastExponent) : 2 ^ ((f.fractionBits : Int) + e) ≤ q := by
  have hd : (0 : ℚ) < d := by exact_mod_cast h.pos
  have hn : (2 ^ f.fractionBits * d : ℚ) ≤ n := by exact_mod_cast h.full.resolve_left he
  rw [h.ratio, zpow_add₀ two_ne_zero]
  apply mul_le_mul_of_nonneg_right _ (by positivity)
  rw [le_div_iff₀ hd]
  exact_mod_cast hn

/-- Units are compared with the ratio. -/
lemma mul_le_iff (h : f.Measured q e n d) (u : Nat) : (u * 2 ^ e : ℚ) ≤ q ↔ u * d ≤ n := by
  have hd : (0 : ℚ) < d := by exact_mod_cast h.pos
  rw [h.ratio, mul_le_mul_iff_of_pos_right (by positivity), le_div_iff₀ hd]
  exact_mod_cast Iff.rfl

/-- The ratio is compared with units. -/
lemma le_mul_iff (h : f.Measured q e n d) (u : Nat) : q ≤ u * 2 ^ e ↔ n ≤ u * d := by
  have hd : (0 : ℚ) < d := by exact_mod_cast h.pos
  rw [h.ratio, mul_le_mul_iff_of_pos_right (by positivity), div_le_iff₀ hd]
  exact_mod_cast Iff.rfl

end Measured

/-- **How a ratio is rounded**: to the nearest count of units of its last place, or to infinity.

**Proof sketch.** The unit of the last place is the one by which the binary logarithm of the ratio has as many
places as the format, or the least one of the format.  Counted in these units the ratio is below the next power of
two, and it fills its places unless the unit is the least one. -/
theorem exists_measured (f : Format) (hnum : 0 < num) (hden : 0 < den) :
    ∃ e n d, f.Measured (num / den) e n d ∧
      f.roundMagnitude num den = min f.infinityBits (f.magnitude (nearest n d) e) := by
  obtain ⟨hle, hlt⟩ := two_zpow_floorLog2_le hnum hden
  have hden' : (0 : ℚ) < den := by exact_mod_cast hden
  set e : Int := max f.leastExponent (floorLog2 num den - f.fractionBits) with he
  set n := num * Nat.pow 2 (-e).toNat with hn
  set d := den * Nat.pow 2 e.toNat with hd
  have hpos : 0 < d := Nat.mul_pos hden (Nat.two_pow_pos _)
  have hpos' : (0 : ℚ) < d := by exact_mod_cast hpos
  have hratio : (num / den : ℚ) = n / d * 2 ^ e := by
    have hscale : (0 : ℚ) < 2 ^ (-e).toNat := by positivity
    rw [two_zpow_eq_div e, hn, hd, Nat.pow_eq, Nat.pow_eq]
    push_cast
    field_simp
  have hcount : (n / d : ℚ) = num / den / 2 ^ e := by
    rw [hratio, mul_div_cancel_right₀ _ (by positivity)]
  refine ⟨e, n, d, ⟨hpos, hratio, le_max_left _ _, ?_, ?_⟩, ?_⟩
  · have hlt' : (n / d : ℚ) < 2 ^ (f.fractionBits + 1) := by
      rw [hcount, div_lt_iff₀ (by positivity), ← zpow_natCast, ← zpow_add₀ two_ne_zero]
      refine hlt.trans_le (zpow_le_zpow_right₀ one_le_two ?_)
      push_cast
      omega
    rw [div_lt_iff₀ hpos'] at hlt'
    exact_mod_cast hlt'
  · rcases le_total (floorLog2 num den - f.fractionBits) f.leastExponent with hsmall | hlarge
    · exact Or.inl (he.trans (max_eq_left hsmall))
    · refine Or.inr ?_
      have hle' : (2 ^ f.fractionBits : ℚ) ≤ n / d := by
        rw [hcount, le_div_iff₀ (by positivity), ← zpow_natCast, ← zpow_add₀ two_ne_zero]
        refine le_trans (zpow_le_zpow_right₀ one_le_two ?_) hle
        omega
      rw [le_div_iff₀ hpos'] at hle'
      exact_mod_cast hle'
  · unfold roundMagnitude magnitude
    rw [if_neg hnum.ne']
    rfl

/-- **Rounding does not fall below a number that the format holds.**

**Proof sketch.** A number of the format that is not above the ratio has an exponent that is not above that of
the ratio's last place.  If it is the same, both are counted in the same units.  If it is smaller, the ratio
counts at least one full fraction more. -/
theorem le_roundMagnitude {u : Nat} {e : Int} (hcanonical : f.Canonical u e)
    (hbits : f.magnitude u e ≤ f.infinityBits) (hnum : 0 < num) (hden : 0 < den)
    (h : (u * 2 ^ e : ℚ) ≤ num / den) : f.magnitude u e ≤ f.roundMagnitude num den := by
  obtain ⟨e', n, d, hmeasured, hround⟩ := f.exists_measured hnum hden
  rw [hround]
  refine le_min hbits ?_
  have hleast := hcanonical.least_le
  have hlt := hcanonical.lt
  rw [pow_succ] at hlt
  rcases lt_trichotomy e e' with hlow | rfl | hhigh
  · have hunits : 2 ^ f.fractionBits ≤ nearest n d :=
      le_nearest hmeasured.pos (hmeasured.full.resolve_left (by omega))
    have hstep : (e - f.leastExponent).toNat + 1 ≤ (e' - f.leastExponent).toNat := by omega
    have hstep' := Nat.mul_le_mul_right (2 ^ f.fractionBits) hstep
    rw [Nat.add_mul, Nat.one_mul] at hstep'
    unfold magnitude
    omega
  · have hunits : u ≤ nearest n d := le_nearest hmeasured.pos ((hmeasured.mul_le_iff u).mp h)
    unfold magnitude
    omega
  · -- a number of a higher binade is above the ratio
    exfalso
    have hleast' := hmeasured.least_le
    have hfull : 2 ^ f.fractionBits ≤ u := hcanonical.full.resolve_left (by omega)
    have hfull' : (2 ^ f.fractionBits : ℚ) ≤ u := by exact_mod_cast hfull
    have habove : (num / den : ℚ) < u * 2 ^ e :=
      calc (num / den : ℚ) < 2 ^ ((f.fractionBits : Int) + 1 + e') := hmeasured.lt_zpow
        _ ≤ 2 ^ ((f.fractionBits : Int) + e) := zpow_le_zpow_right₀ one_le_two (by omega)
        _ = 2 ^ f.fractionBits * 2 ^ e := by rw [zpow_add₀ two_ne_zero, zpow_natCast]
        _ ≤ u * 2 ^ e := by gcongr
    exact absurd h (not_le_of_gt habove)

/-- **Rounding does not rise above a number that the format holds.**

**Proof sketch.** The ratio is measured in units of its own binade.  The given number is of no lower binade, since
it is not below the ratio.  If it is of the same one, its count is not exceeded by rounding; if it is of a higher
one, its bits are not below those of the next power of two, to which rounding rises at most. -/
theorem roundMagnitude_le {u : Nat} {e : Int} (hcanonical : f.Canonical u e) (hden : 0 < den)
    (h : (num / den : ℚ) ≤ u * 2 ^ e) : f.roundMagnitude num den ≤ f.magnitude u e := by
  rcases Nat.eq_zero_or_pos num with rfl | hnum
  · unfold roundMagnitude
    rw [if_pos rfl]
    exact Nat.zero_le _
  obtain ⟨e', n, d, hmeasured, hround⟩ := f.exists_measured hnum hden
  rw [hround]
  refine le_trans (min_le_right _ _) ?_
  have hleast := hmeasured.least_le
  have hlt := hmeasured.lt
  rcases lt_trichotomy e e' with hlow | rfl | hhigh
  · -- a number of a lower binade is below the ratio
    exfalso
    have hleast' := hcanonical.least_le
    have hlt' : (u : ℚ) < 2 ^ (f.fractionBits + 1) := by exact_mod_cast hcanonical.lt
    have hbelow : (u * 2 ^ e : ℚ) < num / den :=
      calc (u * 2 ^ e : ℚ) < 2 ^ (f.fractionBits + 1) * 2 ^ e := by gcongr
        _ = 2 ^ ((f.fractionBits : Int) + 1 + e) := by
            rw [zpow_add₀ two_ne_zero, ← Nat.cast_succ, zpow_natCast]
        _ ≤ 2 ^ ((f.fractionBits : Int) + e') := zpow_le_zpow_right₀ one_le_two (by omega)
        _ ≤ num / den := hmeasured.zpow_le (by omega)
    exact absurd h (not_le_of_gt hbelow)
  · have hunits : nearest n d ≤ u := nearest_le hmeasured.pos ((hmeasured.le_mul_iff u).mp h)
    unfold magnitude
    omega
  · have hunits : nearest n d ≤ 2 ^ (f.fractionBits + 1) := nearest_le hmeasured.pos hlt.le
    have hfull : 2 ^ f.fractionBits ≤ u := hcanonical.full.resolve_left (by omega)
    have hstep : (e' - f.leastExponent).toNat + 1 ≤ (e - f.leastExponent).toNat := by omega
    have hstep' := Nat.mul_le_mul_right (2 ^ f.fractionBits) hstep
    rw [Nat.add_mul, Nat.one_mul] at hstep'
    rw [pow_succ] at hunits
    unfold magnitude
    omega

/-- **Larger bits, larger numbers.**

**Proof sketch.** If the number with the larger bits were the smaller one, it would be rounded to bits that are not
above those of the other.  So both have the same bits, and bits determine their number. -/
lemma Canonical.le_of_magnitude_le {u u' : Nat} {e e' : Int} (h : f.Canonical u e) (h' : f.Canonical u' e')
    (hfinite : f.magnitude u' e' < f.infinityBits) (hle : f.magnitude u e ≤ f.magnitude u' e') :
    (u * 2 ^ e : ℚ) ≤ u' * 2 ^ e' := by
  by_contra hlt
  rw [not_le] at hlt
  have hden : 0 < Nat.pow 2 (-e').toNat := Nat.two_pow_pos _
  have hback : f.magnitude u' e' ≤ f.magnitude u e := by
    rw [← roundMagnitude_eq h' hfinite hden (scaled_div_eq u' e')]
    exact roundMagnitude_le h hden ((scaled_div_eq u' e').le.trans hlt.le)
  -- equal bits hold the same number
  have heq : f.magnitude u e = f.magnitude u' e' := le_antisymm hle hback
  have hdecode := decode_signed_magnitude h (heq ▸ hfinite) false
  rw [heq, decode_signed_magnitude h' hfinite false] at hdecode
  obtain ⟨-, rfl, rfl⟩ := Datum.finite.inj hdecode
  exact lt_irrefl _ hlt

/-! ## Overflow -/

/-- The exponent of the last place of the greatest numbers. -/
def greatestExponent (f : Format) : Int := f.leastExponent + (2 ^ f.exponentBits - 3 : Nat)

/-- **The first number that is rounded to infinity**: half a unit above the greatest number. -/
def overflowBound (f : Format) : ℚ := (2 ^ (f.fractionBits + 1) - 1 / 2) * 2 ^ f.greatestExponent

/-- The binade of the greatest numbers is the last one below infinity. -/
lemma exists_greatestBinade (f : Format) (hexponent : 2 ≤ f.exponentBits) :
    ∃ g : Nat, f.greatestExponent = f.leastExponent + g ∧
      f.infinityBits = g * 2 ^ f.fractionBits + 2 ^ (f.fractionBits + 1) := by
  have hbinades : 2 ^ 2 ≤ 2 ^ f.exponentBits := Nat.pow_le_pow_right two_pos hexponent
  obtain ⟨g, hg⟩ : ∃ g, 2 ^ f.exponentBits = g + 3 := ⟨2 ^ f.exponentBits - 3, by omega⟩
  refine ⟨g, ?_, ?_⟩
  · rw [greatestExponent, hg]
    rfl
  · unfold infinityBits
    rw [Nat.pow_eq, Nat.pow_eq, hg, pow_succ, show g + 3 - 1 = g + 2 from rfl, Nat.add_mul,
      Nat.mul_comm 2]

/-- The numbers below the binade of the greatest ones are below the overflow bound. -/
lemma zpow_le_overflowBound (f : Format) :
    (2 ^ ((f.fractionBits : Int) + f.greatestExponent) : ℚ) ≤ f.overflowBound := by
  have hhalf : (1 / 2 : ℚ) ≤ 2 ^ f.fractionBits :=
    le_trans (by norm_num) (one_le_pow₀ one_le_two)
  rw [overflowBound, zpow_add₀ two_ne_zero, zpow_natCast, pow_succ]
  gcongr
  linarith

/-- The overflow bound is in the binade of the greatest numbers. -/
lemma overflowBound_lt_zpow (f : Format) :
    f.overflowBound < 2 ^ ((f.fractionBits : Int) + 1 + f.greatestExponent) := by
  rw [overflowBound, zpow_add₀ two_ne_zero, ← Nat.cast_succ, zpow_natCast]
  gcongr
  exact sub_lt_self _ (by norm_num)

/-- **In the binade of the greatest numbers** a ratio stays below the overflow bound exactly if its units, rounded,
stay within the format: the greatest count of units is odd, so that the half above it is rounded up.

**Proof sketch.** The bound is the greatest odd count of units and a half.  A ratio below it is rounded to that
count at most; from it on, the half is rounded up, to an even count. -/
lemma Measured.lt_overflowBound_iff {q : ℚ} {n d : Nat} (h : f.Measured q f.greatestExponent n d) :
    q < f.overflowBound ↔ nearest n d < 2 ^ (f.fractionBits + 1) := by
  obtain ⟨k, hk⟩ : ∃ k, 2 ^ (f.fractionBits + 1) = k + 1 :=
    Nat.exists_eq_succ_of_ne_zero (Nat.two_pow_pos _).ne'
  have hodd : k % 2 = 1 := by
    rw [pow_succ] at hk
    omega
  have hd : (0 : ℚ) < d := by exact_mod_cast h.pos
  have hscale : (0 : ℚ) < 2 ^ f.greatestExponent := by positivity
  have hk' : (2 ^ (f.fractionBits + 1) : ℚ) = k + 1 := by exact_mod_cast hk
  have hbound : q < f.overflowBound ↔ 2 * n < (2 * k + 1) * d := by
    rw [overflowBound, h.ratio, mul_lt_mul_iff_of_pos_right hscale, hk', div_lt_iff₀ hd]
    have hcast : ((2 * n : Nat) : ℚ) < ((2 * k + 1) * d : Nat) ↔ 2 * n < (2 * k + 1) * d := Nat.cast_lt
    rw [← hcast]
    push_cast
    constructor
    · intro hlt
      linarith
    · intro hlt
      linarith
  rw [hbound, hk, Nat.lt_succ_iff]
  constructor
  · exact nearest_le_of_lt h.pos
  · intro hle
    by_contra hge
    exact absurd (lt_nearest_of_le h.pos hodd (not_lt.mp hge)) (not_lt.mpr hle)

/-- **Which ratios are rounded to a number**: those below the overflow bound.

**Proof sketch.** In the binade of the greatest numbers the count of units stays within the format up to an odd
count, the half above which is rounded up.  Lower binades stay within the format and higher ones do not, on
either side of the equivalence. -/
theorem roundMagnitude_lt_infinityBits_iff (hexponent : 2 ≤ f.exponentBits) (hnum : 0 < num) (hden : 0 < den) :
    f.roundMagnitude num den < f.infinityBits ↔ (num / den : ℚ) < f.overflowBound := by
  obtain ⟨e, n, d, hmeasured, hround⟩ := f.exists_measured hnum hden
  obtain ⟨g, hgreatest, hinfinity⟩ := f.exists_greatestBinade hexponent
  have hpos : 0 < 2 ^ f.fractionBits := Nat.two_pow_pos _
  have hleast := hmeasured.least_le
  have hunits : nearest n d ≤ 2 ^ (f.fractionBits + 1) := nearest_le hmeasured.pos hmeasured.lt.le
  rw [hround, min_lt_iff, or_iff_right (lt_irrefl _), hinfinity]
  unfold magnitude
  rcases lt_trichotomy e f.greatestExponent with hlow | rfl | hhigh
  · -- a lower binade: no carry leads out of the format
    have hstep : (e - f.leastExponent).toNat + 1 ≤ g := by omega
    have hstep' := Nat.mul_le_mul_right (2 ^ f.fractionBits) hstep
    rw [Nat.add_mul, Nat.one_mul] at hstep'
    rw [pow_succ] at hunits ⊢
    refine iff_of_true (by omega) ?_
    calc (num / den : ℚ) < 2 ^ ((f.fractionBits : Int) + 1 + e) := hmeasured.lt_zpow
      _ ≤ 2 ^ ((f.fractionBits : Int) + f.greatestExponent) := zpow_le_zpow_right₀ one_le_two (by omega)
      _ ≤ f.overflowBound := f.zpow_le_overflowBound
  · -- the binade of the greatest numbers
    have hexp : (f.greatestExponent - f.leastExponent).toNat = g := by omega
    rw [hmeasured.lt_overflowBound_iff, hexp]
    omega
  · -- a higher binade: even the shortest count is out of the format
    have hstep : g + 1 ≤ (e - f.leastExponent).toNat := by omega
    have hstep' := Nat.mul_le_mul_right (2 ^ f.fractionBits) hstep
    rw [Nat.add_mul, Nat.one_mul] at hstep'
    have hunits' : 2 ^ f.fractionBits ≤ nearest n d :=
      le_nearest hmeasured.pos (hmeasured.full.resolve_left (by omega))
    rw [pow_succ]
    refine iff_of_false (by omega) (not_lt_of_ge ?_)
    calc f.overflowBound ≤ 2 ^ ((f.fractionBits : Int) + 1 + f.greatestExponent) := f.overflowBound_lt_zpow.le
      _ ≤ 2 ^ ((f.fractionBits : Int) + e) := zpow_le_zpow_right₀ one_le_two (by omega)
      _ ≤ num / den := hmeasured.zpow_le (by omega)

/-! ## Bits -/

/-- Bits stand for a number exactly if they are below those of infinity, but for the sign. -/
lemma exists_decode_eq_finite_iff (f : Format) (bits : Nat) :
    (∃ negative u e, f.decode bits = .finite negative u e) ↔ bits % f.signBit < f.infinityBits := by
  unfold decode
  dsimp only
  split_ifs with hfinite hbiased hinfinite
  · exact iff_of_true ⟨_, _, _, rfl⟩ hfinite
  · exact iff_of_true ⟨_, _, _, rfl⟩ hfinite
  · exact iff_of_false (by simp) hfinite
  · exact iff_of_false (by simp) hfinite

/-- Rounding leads to infinity at most. -/
lemma roundMagnitude_le_infinityBits (f : Format) (num den : Nat) :
    f.roundMagnitude num den ≤ f.infinityBits := by
  unfold roundMagnitude
  split_ifs
  · exact Nat.zero_le _
  · exact min_le_left _ _

/-- Rounded bits fit the format, and have the given sign. -/
lemma round_lt (f : Format) (negative : Bool) (num den : Nat) : f.round negative num den < 2 * f.signBit := by
  have hle := f.roundMagnitude_le_infinityBits num den
  have hlt := f.infinityBits_lt_signBit
  unfold round
  split_ifs
  · omega
  · omega

/-- A ratio is rounded to the sign and the magnitude. -/
lemma round_mod_signBit (f : Format) (negative : Bool) (num den : Nat) :
    f.round negative num den % f.signBit = f.roundMagnitude num den :=
  (f.signed_parts negative
    ((f.roundMagnitude_le_infinityBits num den).trans_lt f.infinityBits_lt_signBit)).2

/-- A rounded ratio is a number or an infinity. -/
lemma decode_round_ne_nan (f : Format) (negative : Bool) (num den : Nat) :
    f.decode (f.round negative num den) ≠ .nan := by
  have hle := f.roundMagnitude_le_infinityBits num den
  unfold decode
  dsimp only
  rw [round_mod_signBit]
  split_ifs with hfinite hbiased hinfinite
  · simp
  · simp
  · simp
  · omega

end Format

namespace Binary64

/-- The bits of a number stand for it. -/
lemma isFinite_iff_exists {x : Binary64} :
    x.isFinite = true ↔ ∃ negative u e, x.datum = .finite negative u e := by
  unfold isFinite
  cases x.datum with
  | finite negative u e => simp
  | infinite negative => simp
  | nan => simp

/-- Bits below those of infinity stand for a number. -/
lemma isFinite_iff {x : Binary64} :
    x.isFinite = true ↔ x.bits.toNat % Format.double.signBit < Format.double.infinityBits := by
  rw [isFinite_iff_exists]
  exact Format.exists_decode_eq_finite_iff _ _

/-- A finite number is one that its format keeps. -/
lemma exists_canonical {x : Binary64} (hx : x.isFinite = true) :
    ∃ negative u e, x.datum = .finite negative u e ∧ Format.double.Canonical u e ∧
      Format.double.magnitude u e < Format.double.infinityBits ∧
      x.bits.toNat = Format.double.signed negative (Format.double.magnitude u e) := by
  have hbits : x.bits.toNat < 2 * Format.double.signBit := x.bits.toNat_lt
  obtain ⟨negative, u, e, hdatum⟩ := isFinite_iff_exists.mp hx
  exact ⟨negative, u, e, hdatum, Format.canonical_of_decode hbits hdatum⟩

/-- The bits of a rounded ratio. -/
lemma toNat_bits_ofRatio (negative : Bool) (num den : Nat) :
    (ofRatio negative num den).bits.toNat = Format.double.round negative num den := by
  unfold ofRatio
  rw [Nat.toUInt64_eq]
  exact UInt64.toNat_ofNat_of_lt' (Format.double.round_lt negative num den)

/-- **A ratio that is not above a number of the format is rounded to a number.** -/
lemma isFinite_ofRatio_of_le {negative : Bool} {num den u : Nat} {e : Int}
    (hcanonical : Format.double.Canonical u e)
    (hfinite : Format.double.magnitude u e < Format.double.infinityBits) (hden : 0 < den)
    (h : (num / den : ℚ) ≤ u * 2 ^ e) : (ofRatio negative num den).isFinite = true := by
  rw [isFinite_iff, toNat_bits_ofRatio, Format.round_mod_signBit]
  exact (Format.roundMagnitude_le hcanonical hden h).trans_lt hfinite

/-- **A ratio of at least one is rounded to such a number**, or to infinity.

**Proof sketch.** One is a number of the format, so a ratio that is not below one is not rounded below it; and
larger bits hold larger numbers. -/
lemma one_le_of_ofRatio {negative negative' : Bool} {num den u : Nat} {e : Int} (hden : 0 < den)
    (h : den ≤ num) (hdatum : (ofRatio negative num den).datum = .finite negative' u e) :
    (1 : ℚ) ≤ u * 2 ^ e := by
  have hbits : (ofRatio negative num den).bits.toNat < 2 * Format.double.signBit :=
    (ofRatio negative num den).bits.toNat_lt
  obtain ⟨hcanonical, hfinite, heq⟩ := Format.canonical_of_decode hbits hdatum
  have hone : Format.double.Canonical (2 ^ 52) (-52) := by
    refine ⟨by decide, ?_, Or.inr le_rfl⟩
    exact Nat.pow_lt_pow_right one_lt_two (by decide)
  have hone' : Format.double.magnitude (2 ^ 52) (-52) < Format.double.infinityBits := by decide +kernel
  have hvalue : ((2 ^ 52 : Nat) * 2 ^ (-52 : Int) : ℚ) = 1 := by norm_num
  have hround : Format.double.roundMagnitude num den = Format.double.magnitude u e := by
    have hmod := Format.double.round_mod_signBit negative num den
    rw [← toNat_bits_ofRatio, heq] at hmod
    rw [← hmod]
    exact (Format.double.signed_parts negative' (hfinite.trans Format.double.infinityBits_lt_signBit)).2
  have hratio : ((2 ^ 52 : Nat) * 2 ^ (-52 : Int) : ℚ) ≤ num / den := by
    rw [hvalue, le_div_iff₀ (by exact_mod_cast hden), one_mul]
    exact_mod_cast h
  have hle := Format.le_roundMagnitude hone hone'.le (hden.trans_le h) hden hratio
  rw [hround] at hle
  exact hvalue ▸ hone.le_of_magnitude_le hcanonical hfinite hle

/-- **Division by a number of at least one** stays within the format.

**Proof sketch.** The quotient is the ratio of two integers, which is not above the magnitude of the dividend; and
this is a number of the format, above which rounding does not rise. -/
theorem isFinite_div {x y : Binary64} (hx : x.isFinite = true) {negative : Bool} {n : Nat} {d : Int}
    (hy : y.datum = .finite negative n d) (hone : (1 : ℚ) ≤ n * 2 ^ d) : (x.div y).isFinite = true := by
  obtain ⟨negative', u, e, hdatum, hcanonical, hfinite, -⟩ := exists_canonical hx
  have hn : 0 < n := by
    rcases Nat.eq_zero_or_pos n with rfl | hn
    · norm_num at hone
    · exact hn
  unfold div
  rw [hdatum, hy]
  refine isFinite_ofRatio_of_le hcanonical hfinite (Nat.mul_pos hn (Nat.two_pow_pos _)) ?_
  have hpos : (0 : ℚ) < n * 2 ^ d := by positivity
  have hratio : ((u * Nat.pow 2 (e - d).toNat : Nat) / (n * Nat.pow 2 (d - e).toNat : Nat) : ℚ) =
      u * 2 ^ e / (n * 2 ^ d) := by
    have hscale := Format.two_zpow_eq_div (e - d)
    rw [neg_sub, zpow_sub₀ two_ne_zero] at hscale
    rw [mul_div_mul_comm, hscale, Nat.pow_eq, Nat.pow_eq]
    push_cast
    rw [mul_div_mul_comm]
  rw [hratio]
  exact div_le_self (by positivity) hone

/-- The sign does not matter. -/
lemma isFinite_neg (x : Binary64) : x.neg.isFinite = x.isFinite := by
  rw [Bool.eq_iff_iff, isFinite_iff, isFinite_iff]
  have hbits : x.neg.bits.toNat % Format.double.signBit = x.bits.toNat % Format.double.signBit := by
    unfold neg
    rw [UInt64.toNat_xor, show Format.double.signBit = 2 ^ 63 from rfl, Nat.xor_mod_two_pow]
    exact Nat.xor_zero _
  rw [hbits]

end Binary64

namespace Binary32

/-- Bits below those of infinity stand for a number. -/
lemma isFinite_iff {x : Binary32} :
    x.isFinite = true ↔ x.bits.toNat % Format.single.signBit < Format.single.infinityBits := by
  have hexists : x.isFinite = true ↔ ∃ negative u e, x.datum = .finite negative u e := by
    unfold isFinite
    cases x.datum with
    | finite negative u e => simp
    | infinite negative => simp
    | nan => simp
  rw [hexists]
  exact Format.exists_decode_eq_finite_iff _ _

/-- The bits of a rounded ratio. -/
lemma toNat_bits_ofRatio (negative : Bool) (num den : Nat) :
    (ofRatio negative num den).bits.toNat = Format.single.round negative num den := by
  unfold ofRatio
  rw [Nat.toUInt32_eq]
  exact UInt32.toNat_ofNat_of_lt' (Format.single.round_lt negative num den)

/-- A rounded ratio is a number or an infinity. -/
lemma datum_ofRatio_ne_nan (negative : Bool) (num den : Nat) : (ofRatio negative num den).datum ≠ .nan := by
  unfold datum
  rw [toNat_bits_ofRatio]
  exact Format.single.decode_round_ne_nan negative num den

/-- The least magnitude that the small format rounds to infinity. -/
lemma overflowBound_single : Format.single.overflowBound = 2 ^ 128 - 2 ^ 103 := by
  have hgreatest : Format.single.greatestExponent = 104 := by decide
  have hfraction : Format.single.fractionBits = 23 := rfl
  rw [Format.overflowBound, hgreatest, hfraction]
  norm_num

/-- **Which ratios are rounded to a number.** -/
theorem isFinite_ofRatio_iff (negative : Bool) {num den : Nat} (hden : 0 < den) :
    (ofRatio negative num den).isFinite = true ↔ (num / den : ℚ) < 2 ^ 128 - 2 ^ 103 := by
  rw [isFinite_iff, toNat_bits_ofRatio, Format.round_mod_signBit, ← overflowBound_single]
  rcases Nat.eq_zero_or_pos num with rfl | hnum
  · refine iff_of_true ?_ ?_
    · exact Nat.lt_of_le_of_lt (Nat.zero_le 0) (by decide)
    · rw [overflowBound_single]
      norm_num
  · exact Format.roundMagnitude_lt_infinityBits_iff (by decide) hnum hden

/-- **Which numbers can be narrowed.** -/
theorem isFinite_ofBinary64_iff {x : Binary64} {q : ℚ} (h : x.datum.magnitude? = some q) :
    (ofBinary64 x).isFinite = true ↔ q < 2 ^ 128 - 2 ^ 103 := by
  unfold ofBinary64
  cases hdatum : x.datum with
  | finite negative u e =>
    rw [hdatum] at h
    obtain rfl := Option.some.inj h
    rw [← Format.scaled_div_eq]
    exact isFinite_ofRatio_iff negative (Nat.two_pow_pos _)
  | infinite negative => simp [hdatum, Datum.magnitude?] at h
  | nan => simp [hdatum, Datum.magnitude?] at h

/-- A number that is narrowed stays a number or becomes an infinity. -/
lemma datum_ofBinary64_ne_nan {x : Binary64} {q : ℚ} (h : x.datum.magnitude? = some q) :
    (ofBinary64 x).datum ≠ .nan := by
  unfold ofBinary64
  cases hdatum : x.datum with
  | finite negative u e => exact datum_ofRatio_ne_nan _ _ _
  | infinite negative => simp [hdatum, Datum.magnitude?] at h
  | nan => simp [hdatum, Datum.magnitude?] at h

end Binary32

end CodeAtlas.Number
