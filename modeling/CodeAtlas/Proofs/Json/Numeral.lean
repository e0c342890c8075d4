import CodeAtlas.Json.Typed
import CodeAtlas.Json.Numeral
import CodeAtlas.Proofs.Number.Rounding

/-!
# The values of JSON numerals

A numeral has a value only if it is in range: an integer of 64 bits, with or without a sign, or a number that is
not infinite.  The digits that are read fit 64 bits, a product is checked, and no division leads out of the
format.  What a numeral becomes in the small format can still be infinite, and is so exactly from half a unit
above the greatest number of that format on.

## Main definitions

* `CodeAtlas.Json.Numeral.magnitude?` — how large the value of a numeral is.

## Main results

* `CodeAtlas.Json.Numeral.value_cases` — a numeral never stands for an infinity.
* `CodeAtlas.Json.Numeral.isFinite_of_readSingle` — what a numeral becomes in the small format.
-/

namespace CodeAtlas.Json.Numeral

open CodeAtlas.Number

/-! ## Digits -/

/-- The digits before the point that are read fit a word. -/
lemma scanWhole_le (n : Nat) (h : n ≤ Word.greatestUnsigned) (cs : List Char) :
    (scanWhole n cs).1 ≤ Word.greatestUnsigned := by
  induction cs generalizing n with
  | nil => exact h
  | cons c cs ih =>
    rw [scanWhole]
    split_ifs with hfits
    · exact ih _ hfits
    · exact h

/-- The digits that are read fit a word. -/
lemma scanFraction_le (n places : Nat) (h : n ≤ Word.greatestUnsigned) (cs : List Char) :
    (scanFraction n places cs).1 ≤ Word.greatestUnsigned := by
  induction cs generalizing n places with
  | nil => exact h
  | cons c cs ih =>
    rw [scanFraction]
    split_ifs with hfits
    · exact ih _ _ hfits
    · exact h

/-! ## Scaling -/

/-- What fits a word is a number of the format. -/
lemma isFinite_ofRatio_word {n : Nat} (h : n ≤ Word.greatestUnsigned) :
    (Binary64.ofRatio false n 1).isFinite = true := by
  have hcanonical : Format.double.Canonical (2 ^ 52) 12 := by
    refine ⟨by decide, ?_, Or.inr le_rfl⟩
    exact Nat.pow_lt_pow_right one_lt_two (by decide)
  have hfinite : Format.double.magnitude (2 ^ 52) 12 < Format.double.infinityBits := by decide +kernel
  refine Binary64.isFinite_ofRatio_of_le hcanonical hfinite one_pos ?_
  have h' : (n : ℚ) ≤ (Word.greatestUnsigned : Nat) := by exact_mod_cast h
  rw [Nat.cast_one, div_one]
  refine h'.trans ?_
  norm_num [Word.greatestUnsigned]

/-- A power of ten in range is a number of at least one.

**Proof sketch.** The power is below the greatest number of the format, so it is not rounded to infinity; and it is
at least one, which the format holds, so that rounding does not fall below it. -/
lemma exists_datum_powerOfTen {k : Nat} (h : k ≤ greatestPower) :
    ∃ negative n d, (powerOfTen k).datum = .finite negative n d ∧ (1 : ℚ) ≤ n * 2 ^ d := by
  -- the greatest number of the format, of which the greatest power of ten falls short
  have hcanonical : Format.double.Canonical (2 ^ 53 - 1) 971 := by
    refine ⟨by decide, ?_, Or.inr ?_⟩
    · exact Nat.sub_lt (Nat.two_pow_pos _) one_pos
    · decide
  have hfinite : Format.double.magnitude (2 ^ 53 - 1) 971 < Format.double.infinityBits := by decide +kernel
  have hle : ((Nat.pow 10 k : Nat) / (1 : Nat) : ℚ) ≤ (2 ^ 53 - 1 : Nat) * 2 ^ (971 : Int) := by
    have hpow : Nat.pow 10 k ≤ Nat.pow 10 greatestPower := by
      rw [Nat.pow_eq, Nat.pow_eq]
      exact Nat.pow_le_pow_right (by decide) h
    have hgreatest : Nat.pow 10 greatestPower ≤ (2 ^ 53 - 1) * 2 ^ 971 := by decide +kernel
    have hnat : ((Nat.pow 10 k : Nat) : ℚ) ≤ ((2 ^ 53 - 1) * 2 ^ 971 : Nat) := by
      exact_mod_cast hpow.trans hgreatest
    rw [Nat.cast_one, div_one]
    exact_mod_cast hnat
  have hnumber : (powerOfTen k).isFinite = true :=
    Binary64.isFinite_ofRatio_of_le hcanonical hfinite one_pos hle
  obtain ⟨negative, n, d, hdatum⟩ := Binary64.isFinite_iff_exists.mp hnumber
  exact ⟨negative, n, d, hdatum, Binary64.one_le_of_ofRatio one_pos (Nat.pow_pos (by decide)) hdatum⟩

/-- Divisions by powers of ten stay within the format. -/
lemma isFinite_scaleDown (fuel : Nat) {x : Binary64} (hx : x.isFinite = true) (k : Nat) :
    (scaleDown fuel x k).isFinite = true := by
  induction fuel generalizing x k with
  | zero => exact hx
  | succ fuel ih =>
    have hdiv : ∀ j ≤ greatestPower, (x.div (powerOfTen j)).isFinite = true := by
      intro j hj
      obtain ⟨negative, n, d, hdatum, hone⟩ := exists_datum_powerOfTen hj
      exact Binary64.isFinite_div hx hdatum hone
    rw [scaleDown]
    split_ifs with hk
    · exact hdiv k hk
    · exact ih (hdiv greatestPower le_rfl) _

/-- **A scaled number is not infinite.** -/
lemma isFinite_of_scaled {significand : Nat} {exponent : Int} {x : Binary64}
    (hsignificand : significand ≤ Word.greatestUnsigned) (h : scaled significand exponent = some x) :
    x.isFinite = true := by
  have hword := isFinite_ofRatio_word hsignificand
  unfold scaled at h
  dsimp only at h
  split_ifs at h with hzero hnegative hrange hproduct
  · rw [← Option.some.inj h]
    exact hword
  · rw [← Option.some.inj h]
    exact isFinite_scaleDown 3 hword _
  · rw [← Option.some.inj h]
    exact hproduct

/-! ## Values -/

/-- The value of a numeral that is no integer. -/
lemma exists_of_float {n : Numeral} {v : Json} (h : n.float = some v) :
    ∃ x : Binary64, v = .float x ∧ x.isFinite = true := by
  unfold float at h
  dsimp only at h
  obtain ⟨x, hx, rfl⟩ := Option.map_eq_some_iff.mp h
  have hwhole : (scanWhole 0 n.whole).1 ≤ Word.greatestUnsigned := scanWhole_le 0 (Nat.zero_le _) _
  have hfinite := isFinite_of_scaled (scanFraction_le _ 0 hwhole _) hx
  refine ⟨_, rfl, ?_⟩
  split_ifs
  · rw [Binary64.isFinite_neg]
    exact hfinite
  · exact hfinite

/-- **The value of a numeral** is an integer in range or a number that is not infinite. -/
theorem value_cases {n : Numeral} {v : Json} (h : n.value = some v) :
    (∃ i : Int, v = .int i) ∨ ∃ x : Binary64, v = .float x ∧ x.isFinite = true := by
  unfold value at h
  dsimp only at h
  generalize (if n.negative = true then _ else _ : Int) = i at h
  split at h
  · split at h
    · exact Or.inr (exists_of_float h)
    · exact Or.inl ⟨_, (Option.some.inj h).symm⟩
  · exact Or.inr (exists_of_float h)

/-- How large the value of a numeral is. -/
def magnitude? (n : Numeral) : Option ℚ :=
  match n.value with
  | some (.int i) => some i.natAbs
  | some (.float x) => x.datum.magnitude?
  | _ => none

/-- **What a numeral becomes in the small format**: a number or an infinity, and a number exactly below half a
unit above the greatest one.

**Proof sketch.** An integer is rounded once.  Any other numeral is first rounded to the larger format, and then to
the smaller one; its magnitude is the number after the first rounding, so that in both cases the bound is that of
one rounding to the small format. -/
theorem isFinite_of_readSingle {n : Numeral} {v : Json} {x : Binary32} (hv : n.value = some v)
    (hx : readSingle v = .ok x) :
    ∃ q, n.magnitude? = some q ∧ x.datum ≠ .nan ∧ (x.isFinite = true ↔ q < 2 ^ 128 - 2 ^ 103) := by
  rcases value_cases hv with ⟨i, rfl⟩ | ⟨y, rfl, hy⟩
  · obtain rfl := Except.ok.inj hx
    refine ⟨i.natAbs, by simp [magnitude?, hv], Binary32.datum_ofRatio_ne_nan _ _ _, ?_⟩
    have hratio : (i.natAbs / (1 : Nat) : ℚ) = i.natAbs := by rw [Nat.cast_one, div_one]
    rw [← hratio]
    exact Binary32.isFinite_ofRatio_iff _ one_pos
  · obtain rfl := Except.ok.inj hx
    obtain ⟨negative, u, e, hdatum⟩ := Binary64.isFinite_iff_exists.mp hy
    have hmagnitude : y.datum.magnitude? = some (u * 2 ^ e : ℚ) := by rw [hdatum, Datum.magnitude?]
    refine ⟨u * 2 ^ e, by simp [magnitude?, hv, hmagnitude], ?_, ?_⟩
    · exact Binary32.datum_ofBinary64_ne_nan hmagnitude
    · exact Binary32.isFinite_ofBinary64_iff hmagnitude

end CodeAtlas.Json.Numeral
