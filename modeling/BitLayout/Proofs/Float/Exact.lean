import BitLayout.FloatFormat
import Mathlib

/-!
# Rounding loses nothing of a number the format has

A quotient that is a magnitude of the format is rounded to the code of that
magnitude (`round_eq`); what the common factors of the quotient are does not
matter (`round_mul_left`). Magnitudes are compared as whole numbers: a code
is `steps` times the least magnitude of its format, and `AgreesWith` says
that two codes of two formats are one number.

Which multiples of the least magnitude are magnitudes is told by significand
and shift (`steps_eq`, `exists_steps_eq`). A number with fewer significant
bits and a smaller range is therefore a number of the wider format, and
converting it there and back is no loss (`convert_eq`).
-/

namespace BitLayout.FloatFormat

/-! ## Whole numbers -/

theorem roundHalfEven_mul_left {factor : Nat} (h : 0 < factor) (num den : Nat) :
    roundHalfEven (factor * num) (factor * den) = roundHalfEven num den := by
  have hlt : 2 * (factor * (num % den)) < factor * den ↔ 2 * (num % den) < den := by
    rw [Nat.mul_left_comm]
    exact Nat.mul_lt_mul_left h
  have heq : 2 * (factor * (num % den)) = factor * den ↔ 2 * (num % den) = den := by
    rw [Nat.mul_left_comm]
    exact Nat.mul_right_inj (Nat.ne_of_gt h)
  rw [roundHalfEven, roundHalfEven, Nat.mul_div_mul_left _ _ h, Nat.mul_mod_mul_left]
  simp only [hlt, heq]

theorem roundHalfEven_mul_self {den : Nat} (h : 0 < den) (q : Nat) :
    roundHalfEven (q * den) den = q := by
  rw [roundHalfEven, Nat.mul_div_cancel q h, Nat.mul_mod_left]
  exact if_pos (Or.inl h)

/-! ## Significand and shift -/

variable {format : FloatFormat}

theorem binade_pos (format : FloatFormat) : 0 < format.binade :=
  Nat.pow_pos (by decide)

theorem two_mul_binade (h : 0 < format.precision) : 2 * format.binade = 2 ^ format.precision := by
  show 2 * 2 ^ (format.precision - 1) = 2 ^ format.precision
  rw [← Nat.pow_succ', Nat.succ_eq_add_one, Nat.sub_one_add_one (Nat.ne_of_gt h)]

/-- The code of a significand in the binade of a shift. -/
theorem steps_shift {shift significand : Nat} (hlow : format.binade ≤ significand ∨ shift = 0)
    (hhigh : significand < 2 * format.binade) :
    format.steps (shift * format.binade + significand) = significand * 2 ^ shift := by
  have hpos := format.binade_pos
  rcases Nat.lt_or_ge significand format.binade with hlt | hge
  · obtain rfl := hlow.resolve_left (Nat.not_le.mpr hlt)
    rw [Nat.zero_mul, Nat.zero_add, steps, Nat.div_eq_of_lt hlt, Nat.mod_eq_of_lt hlt]
    simp
  · obtain ⟨fraction, rfl⟩ := Nat.exists_eq_add_of_le hge
    have hlt : fraction < format.binade := by omega
    have hcode : shift * format.binade + (format.binade + fraction) =
        fraction + (shift + 1) * format.binade := by ring
    rw [hcode, steps, Nat.add_mul_div_right _ _ hpos, Nat.add_mul_mod_self_right,
      Nat.div_eq_of_lt hlt, Nat.mod_eq_of_lt hlt, Nat.zero_add]
    exact if_neg (Nat.succ_ne_zero shift)

/-- Every code is that of a significand in the binade of a shift. -/
theorem exists_shift (format : FloatFormat) (code : Nat) :
    ∃ shift significand, code = shift * format.binade + significand ∧
      (format.binade ≤ significand ∨ shift = 0) ∧ significand < 2 * format.binade := by
  have hmod := Nat.mod_lt code format.binade_pos
  have hdiv := Nat.div_add_mod' code format.binade
  cases hexponent : code / format.binade with
  | zero =>
    rw [hexponent] at hdiv
    exact ⟨0, code % format.binade, hdiv.symm, Or.inr rfl, by omega⟩
  | succ shift =>
    rw [hexponent] at hdiv
    refine ⟨shift, format.binade + code % format.binade, ?_, Or.inl (Nat.le_add_right _ _),
      by omega⟩
    rw [← Nat.add_assoc, ← Nat.succ_mul, hdiv]

/-- The shift that rounding takes is the one of the number. -/
theorem log2_shift {shift significand : Nat} (h : 0 < format.precision)
    (hlow : format.binade ≤ significand ∨ shift = 0) (hhigh : significand < 2 * format.binade) :
    Nat.log2 (significand * 2 ^ shift) + 1 - format.precision = shift := by
  rw [two_mul_binade h] at hhigh
  rcases Nat.eq_zero_or_pos significand with rfl | hpos
  · obtain rfl := hlow.resolve_left (Nat.not_le.mpr format.binade_pos)
    rw [Nat.zero_mul, Nat.log2_zero]
    omega
  have hne : significand * 2 ^ shift ≠ 0 :=
    Nat.ne_of_gt (Nat.mul_pos hpos (Nat.pow_pos (by decide)))
  have hupper : Nat.log2 (significand * 2 ^ shift) < format.precision + shift := by
    rw [Nat.log2_lt hne, Nat.pow_add]
    exact Nat.mul_lt_mul_of_pos_right hhigh (Nat.pow_pos (by decide))
  rcases hlow with hge | rfl
  · have hlower : format.precision - 1 + shift ≤ Nat.log2 (significand * 2 ^ shift) := by
      rw [Nat.le_log2 hne, Nat.pow_add]
      exact Nat.mul_le_mul_right _ hge
    omega
  · omega

/-- The magnitude of a code, by significand and shift. -/
theorem steps_eq (h : 0 < format.precision) {code : Nat} (hcode : code < format.infinity) :
    ∃ significand shift, significand < 2 ^ format.precision ∧
      shift + 1 < 2 ^ format.exponentBits ∧ format.steps code = significand * 2 ^ shift := by
  obtain ⟨shift, significand, rfl, hlow, hhigh⟩ := exists_shift format code
  refine ⟨significand, shift, by rwa [← two_mul_binade h], ?_, steps_shift hlow hhigh⟩
  have hlt : shift * format.binade < (2 ^ format.exponentBits - 1) * format.binade :=
    Nat.lt_of_le_of_lt (Nat.le_add_right _ significand) hcode
  have := Nat.lt_of_mul_lt_mul_right hlt
  omega

/-- Significand and shift within the range of the format make a magnitude. -/
theorem exists_steps_eq (h : 0 < format.precision) {significand shift : Nat}
    (hsignificand : significand < 2 ^ format.precision)
    (hshift : shift + 2 < 2 ^ format.exponentBits) :
    ∃ code < format.infinity, format.steps code = significand * 2 ^ shift := by
  -- The significand may have room above it, so the binade lies at or below the shift.
  induction shift generalizing significand with
  | zero =>
    rw [← two_mul_binade h] at hsignificand
    refine ⟨significand, ?_, ?_⟩
    · refine Nat.lt_of_lt_of_le hsignificand (Nat.mul_le_mul_right _ ?_)
      show 2 ≤ 2 ^ format.exponentBits - 1
      omega
    · have hsteps := steps_shift (Or.inr rfl) hsignificand
      rwa [Nat.zero_mul, Nat.zero_add] at hsteps
  | succ shift ih =>
    rcases Nat.lt_or_ge significand format.binade with hlt | hge
    · have hdouble : 2 * significand < 2 ^ format.precision := by
        rw [← two_mul_binade h]
        omega
      obtain ⟨code, hcode, hsteps⟩ := ih hdouble (by omega)
      refine ⟨code, hcode, hsteps.trans ?_⟩
      rw [Nat.pow_succ]
      ring
    · rw [← two_mul_binade h] at hsignificand
      refine ⟨(shift + 1) * format.binade + significand, ?_,
        steps_shift (Or.inl hge) hsignificand⟩
      calc (shift + 1) * format.binade + significand
          < (shift + 3) * format.binade := by rw [Nat.add_mul _ 2]; omega
        _ ≤ format.infinity := Nat.mul_le_mul_right _ (by
          show shift + 3 ≤ 2 ^ format.exponentBits - 1
          omega)

/-! ## Rounding -/

theorem round_mul_left {factor : Nat} (h : 0 < factor) (num den : Nat) :
    format.round (factor * num) (factor * den) = format.round num den := by
  simp only [round, Nat.mul_assoc factor, Nat.mul_div_mul_left _ _ h, roundHalfEven_mul_left h]

/-- A quotient that is a magnitude of the format is rounded to its code. -/
theorem round_eq (h : 0 < format.precision) {num den code : Nat} (hden : 0 < den)
    (hcode : code < format.infinity)
    (heq : num * 2 ^ format.scale = format.steps code * den) : format.round num den = code := by
  obtain ⟨shift, significand, rfl, hlow, hhigh⟩ := exists_shift format code
  rw [steps_shift hlow hhigh] at heq
  have hround : roundHalfEven (significand * 2 ^ shift * den) (den * 2 ^ shift) = significand := by
    rw [Nat.mul_assoc, Nat.mul_comm (2 ^ shift)]
    exact roundHalfEven_mul_self (Nat.mul_pos hden (Nat.pow_pos (by decide))) significand
  simp only [round, Nat.pow_eq, heq, Nat.mul_div_cancel _ hden, log2_shift h hlow hhigh, hround]
  exact if_pos hcode

/-! ## Two formats -/

/-- A code of one format and a code of another are one number. -/
def AgreesWith (source target : FloatFormat) (code other : Nat) : Prop :=
  source.steps code * 2 ^ target.scale = target.steps other * 2 ^ source.scale

variable {source target : FloatFormat}

theorem AgreesWith.symm {code other : Nat} (h : AgreesWith source target code other) :
    AgreesWith target source other code :=
  Eq.symm h

theorem AgreesWith.refl (format : FloatFormat) (code : Nat) : AgreesWith format format code code :=
  rfl

theorem convert_eq (h : 0 < target.precision) {code other : Nat} (hcode : code < source.infinity)
    (hother : other < target.infinity) (hagrees : AgreesWith source target code other) :
    convert source target code = other := by
  rw [convert, if_pos hcode]
  exact round_eq h (Nat.pow_pos (by decide)) hother hagrees

/-- Every number of a format is a number of 64 bits. -/
theorem exists_double (hformat : format = single ∨ format = double) {code : Nat}
    (hcode : code < format.infinity) :
    ∃ other < double.infinity, AgreesWith format double code other := by
  rcases hformat with rfl | rfl
  · obtain ⟨significand, shift, hsignificand, hshift, hsteps⟩ := steps_eq (by decide) hcode
    -- The least magnitude of 32 bits is that of 64 bits, times two to the power `gap`.
    obtain ⟨gap, hgap, hrange⟩ : ∃ gap, double.scale = gap + single.scale ∧
        2 ^ single.exponentBits + gap < 2 ^ double.exponentBits := ⟨925, by decide, by decide⟩
    have hbits : 2 ^ single.precision ≤ 2 ^ double.precision := by decide
    obtain ⟨other, hother, heq⟩ := @exists_steps_eq double (by decide) significand (shift + gap)
      (Nat.lt_of_lt_of_le hsignificand hbits) (by omega)
    refine ⟨other, hother, ?_⟩
    rw [AgreesWith, heq, hsteps, hgap, Nat.pow_add, Nat.pow_add]
    ring
  · exact ⟨code, hcode, AgreesWith.refl double code⟩

/-- A number is widened to 64 bits and narrowed again without a loss. -/
theorem convert_double (hformat : format = single ∨ format = double) {code : Nat}
    (hcode : code < format.infinity) :
    convert format double code < double.infinity ∧
      convert double format (convert format double code) = code := by
  obtain ⟨other, hother, hagrees⟩ := exists_double hformat hcode
  have hprecision : 0 < format.precision := by
    rcases hformat with rfl | rfl <;> decide
  have hwiden : convert format double code = other := convert_eq (by decide) hcode hother hagrees
  rw [hwiden]
  exact ⟨hother, convert_eq hprecision hother hcode hagrees.symm⟩

end BitLayout.FloatFormat
