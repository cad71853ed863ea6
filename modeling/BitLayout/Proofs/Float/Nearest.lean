import BitLayout.Proofs.Float.Exact

/-!
# The number that is nearest

What it is for a code to be the correctly rounded one of a rational number
(`Nearest`), in the terms of the standard for floating point: a number is a
significand times the value of its last place, no number of the format is
nearer than the one that is chosen, of two that are equally near it is the one
with the even significand, and infinity is chosen from half a last place above
the largest number on.

Codes count magnitudes upwards, so all of this is said of the two halfway
points on the sides of a code (`Between`). Between these no other number is
nearer (`nearest_iff_between`), and no number is between those of two codes
(`Nearest.unique`). Rounding a quotient takes the shift of the binade that
holds it, and there half a last place is half a unit of the significand
(`between_round`).
-/

namespace BitLayout.FloatFormat

/-! ## The numbers of a format -/

/-- What the exponent bits count from. -/
def bias (format : FloatFormat) : Nat :=
  2 ^ (format.exponentBits - 1) - 1

/-- The fraction bits, behind the leading bit unless all exponent bits are zero. -/
def significand (format : FloatFormat) (code : Nat) : Nat :=
  if code / format.binade = 0 then code % format.binade
  else format.binade + code % format.binade

/-- What the last bit of the significand counts for. A subnormal number has the last place of
the least normal ones. -/
def ulp (format : FloatFormat) (code : Nat) : ℚ :=
  2 ^ ((max (code / format.binade) 1 : Nat) - format.bias - (format.precision - 1 : Nat) : ℤ)

/-- The number of a code. That of infinity is the power of two that would come next. -/
def magnitude (format : FloatFormat) (code : Nat) : ℚ :=
  format.significand code * format.ulp code

/-- The number in the middle between a code and the one above it. -/
def halfway (format : FloatFormat) (code : Nat) : ℚ :=
  (format.magnitude code + format.magnitude (code + 1)) / 2

/-- A code is that of the number nearest to `q`, for a `q` that is not negative. -/
structure Nearest (format : FloatFormat) (q : ℚ) (code : Nat) : Prop where
  le_infinity : code ≤ format.infinity
  nearest : code < format.infinity → ∀ other < format.infinity,
    |q - format.magnitude code| ≤ |q - format.magnitude other|
  tie : code < format.infinity → ∀ other < format.infinity, other ≠ code →
    |q - format.magnitude code| = |q - format.magnitude other| → Even (format.significand code)
  overflow : code = format.infinity ↔
    format.magnitude (format.infinity - 1) + format.ulp (format.infinity - 1) / 2 ≤ q

/-- A format has fraction bits, and exponents between those of zero and infinity. -/
structure Proper (format : FloatFormat) : Prop where
  precision : 2 ≤ format.precision
  exponentBits : 2 ≤ format.exponentBits

theorem proper_single : single.Proper :=
  ⟨by decide, by decide⟩

theorem proper_double : double.Proper :=
  ⟨by decide, by decide⟩

variable {format : FloatFormat}

theorem Proper.even_binade (h : format.Proper) : Even format.binade :=
  (Nat.even_pow.mpr ⟨even_two, by have := h.precision; omega⟩ : Even (2 ^ (format.precision - 1)))

theorem Proper.even_infinity (h : format.Proper) : Even format.infinity :=
  h.even_binade.mul_left _

theorem Proper.infinity_pos (h : format.Proper) : 0 < format.infinity := by
  refine Nat.mul_pos ?_ format.binade_pos
  have hpow : 2 ^ 2 ≤ 2 ^ format.exponentBits := Nat.pow_le_pow_right (by decide) h.exponentBits
  show 0 < 2 ^ format.exponentBits - 1
  omega

theorem Proper.even_significand_iff (h : format.Proper) (code : Nat) :
    Even (format.significand code) ↔ Even code := by
  have hmod : Even (code % format.binade) ↔ Even code := by
    have hdiv : Even (format.binade * (code / format.binade)) := h.even_binade.mul_right _
    conv_rhs => rw [← Nat.div_add_mod code format.binade]
    rw [Nat.even_add, iff_true_left hdiv]
  rw [significand]
  split
  · exact hmod
  · rw [Nat.even_add, iff_true_left h.even_binade, hmod]

/-! ## Numbers as steps -/

/-- A binade holds its upper end as well, as the first number of the next one. -/
theorem steps_shift_le {shift significand : Nat} (hlow : format.binade ≤ significand ∨ shift = 0)
    (hhigh : significand ≤ 2 * format.binade) :
    format.steps (shift * format.binade + significand) = significand * 2 ^ shift := by
  rcases Nat.lt_or_eq_of_le hhigh with hlt | rfl
  · exact steps_shift hlow hlt
  · have hcode : shift * format.binade + 2 * format.binade =
        (shift + 1) * format.binade + format.binade := by ring
    have hpos := format.binade_pos
    rw [hcode, steps_shift (Or.inl le_rfl) (by omega), Nat.pow_succ]
    ring

/-- The codes of a binade and the one behind it are a unit of the significand apart, or two. -/
theorem steps_succ_shift {shift significand : Nat}
    (hlow : format.binade ≤ significand ∨ shift = 0) (hhigh : significand ≤ 2 * format.binade) :
    (significand + 1) * 2 ^ shift ≤ format.steps (shift * format.binade + significand + 1) := by
  rcases Nat.lt_or_eq_of_le hhigh with hlt | rfl
  · have hlow' : format.binade ≤ significand + 1 ∨ shift = 0 := hlow.imp_left Nat.le_succ_of_le
    rw [Nat.add_assoc, steps_shift_le hlow' hlt]
  · have hcode : shift * format.binade + 2 * format.binade + 1 =
        (shift + 1) * format.binade + (format.binade + 1) := by ring
    have hpos := format.binade_pos
    rw [hcode, steps_shift_le (Or.inl (Nat.le_succ _)) (by omega), Nat.pow_succ]
    nlinarith [Nat.two_pow_pos shift]

theorem strictMono_steps (format : FloatFormat) : StrictMono format.steps := by
  refine strictMono_nat_of_lt_succ fun code => ?_
  obtain ⟨shift, significand, rfl, hlow, hhigh⟩ := exists_shift format code
  refine Nat.lt_of_lt_of_le ?_ (steps_succ_shift hlow hhigh.le)
  rw [steps_shift hlow hhigh]
  exact Nat.mul_lt_mul_of_pos_right (Nat.lt_succ_self _) (Nat.two_pow_pos shift)

/-- Significand and last place of a code in the binade of a shift. -/
theorem magnitude_shift (h : format.Proper) {shift significand : Nat}
    (hlow : format.binade ≤ significand ∨ shift = 0) (hhigh : significand < 2 * format.binade) :
    format.significand (shift * format.binade + significand) = significand ∧
      format.ulp (shift * format.binade + significand) = 2 ^ shift / 2 ^ format.scale := by
  have hpos := format.binade_pos
  have hscale : format.scale = format.bias - 1 + (format.precision - 1) := rfl
  have hbias : 2 ^ 1 ≤ 2 ^ (format.exponentBits - 1) :=
    Nat.pow_le_pow_right (by decide) (by have := h.exponentBits; omega)
  have hulp : ∀ code, max (code / format.binade) 1 = shift + 1 →
      format.ulp code = 2 ^ shift / 2 ^ format.scale := by
    intro code hmax
    have hexponent : ((shift + 1 : Nat) - format.bias - (format.precision - 1 : Nat) : ℤ) =
        shift - format.scale := by
      rw [hscale, bias]
      omega
    rw [ulp, hmax, hexponent, zpow_sub₀ two_ne_zero, zpow_natCast, zpow_natCast]
  rcases Nat.lt_or_ge significand format.binade with hlt | hge
  · obtain rfl := hlow.resolve_left (Nat.not_le.mpr hlt)
    rw [Nat.zero_mul, Nat.zero_add]
    have hdiv := Nat.div_eq_of_lt hlt
    refine ⟨?_, hulp _ (by rw [hdiv]; rfl)⟩
    rw [FloatFormat.significand, if_pos hdiv, Nat.mod_eq_of_lt hlt]
  · obtain ⟨fraction, rfl⟩ := Nat.exists_eq_add_of_le hge
    have hlt : fraction < format.binade := by omega
    have hcode : shift * format.binade + (format.binade + fraction) =
        fraction + (shift + 1) * format.binade := by ring
    have hdiv : (fraction + (shift + 1) * format.binade) / format.binade = shift + 1 := by
      rw [Nat.add_mul_div_right _ _ hpos, Nat.div_eq_of_lt hlt, Nat.zero_add]
    rw [hcode]
    refine ⟨?_, hulp _ (by rw [hdiv]; omega)⟩
    rw [FloatFormat.significand, if_neg (by omega), Nat.add_mul_mod_self_right,
      Nat.mod_eq_of_lt hlt]

/-- The number of a code, as a multiple of the least positive one. -/
theorem magnitude_eq_steps (h : format.Proper) (code : Nat) :
    format.magnitude code = format.steps code / 2 ^ format.scale := by
  obtain ⟨shift, significand, rfl, hlow, hhigh⟩ := exists_shift format code
  obtain ⟨hsignificand, hulp⟩ := magnitude_shift h hlow hhigh
  rw [magnitude, hsignificand, hulp, steps_shift hlow hhigh]
  push_cast
  ring

-- One, the least positive number of 32 bits and the largest of 64 bits.
example : single.magnitude 0x3f800000 = 1 ∧ single.magnitude 1 = 1 / 2 ^ 149 ∧
    double.magnitude (double.infinity - 1) = (2 ^ 53 - 1) * 2 ^ 971 := by
  decide +kernel

/-- The next number is one unit in the last place above. -/
theorem magnitude_succ (h : format.Proper) (code : Nat) :
    format.magnitude (code + 1) = format.magnitude code + format.ulp code := by
  rw [magnitude_eq_steps h, magnitude_eq_steps h]
  obtain ⟨shift, significand, rfl, hlow, hhigh⟩ := exists_shift format code
  have hlow' : format.binade ≤ significand + 1 ∨ shift = 0 := hlow.imp_left Nat.le_succ_of_le
  rw [(magnitude_shift h hlow hhigh).2, steps_shift hlow hhigh, Nat.add_assoc,
    steps_shift_le hlow' hhigh]
  push_cast
  ring

theorem strictMono_magnitude (h : format.Proper) : StrictMono format.magnitude := by
  intro code other hlt
  rw [magnitude_eq_steps h, magnitude_eq_steps h]
  have hsteps : (format.steps code : ℚ) < format.steps other :=
    Nat.cast_lt.mpr (format.strictMono_steps hlt)
  gcongr

theorem halfway_eq (h : format.Proper) (code : Nat) :
    format.halfway code = format.magnitude code + format.ulp code / 2 := by
  rw [halfway, magnitude_succ h]
  ring

theorem strictMono_halfway (h : format.Proper) : StrictMono format.halfway := by
  intro code other hlt
  have hcode := strictMono_magnitude h hlt
  have hnext := strictMono_magnitude h (Nat.add_lt_add_right hlt 1)
  rw [halfway, halfway]
  linarith

theorem magnitude_lt_halfway (h : format.Proper) (code : Nat) :
    format.magnitude code < format.halfway code ∧
      format.halfway code < format.magnitude (code + 1) := by
  have hlt := strictMono_magnitude h code.lt_add_one
  rw [halfway]
  constructor <;> linarith

/-! ## Between two halfway points -/

/-- `q` is between the halfway points on the sides of a code, or on one of them and the code
is even. -/
structure Between (format : FloatFormat) (q : ℚ) (code : Nat) : Prop where
  le_infinity : code ≤ format.infinity
  below : ∀ lower, lower + 1 = code →
    format.halfway lower ≤ q ∧ (format.halfway lower = q → Even code)
  above : code < format.infinity →
    q ≤ format.halfway code ∧ (q = format.halfway code → Even code)

/-- Of two points, the lower one is as near as the other up to the middle. -/
theorem abs_sub_le_abs_sub_iff {low high : ℚ} (h : low < high) (q : ℚ) :
    |q - low| ≤ |q - high| ↔ 2 * q ≤ low + high := by
  rw [← sq_le_sq]
  constructor <;> intro hle <;> nlinarith

/-- And the higher one from the middle on. -/
theorem abs_sub_le_abs_sub_iff' {low high : ℚ} (h : low < high) (q : ℚ) :
    |q - high| ≤ |q - low| ↔ low + high ≤ 2 * q := by
  rw [← sq_le_sq]
  constructor <;> intro hle <;> nlinarith

theorem near_code_iff (h : format.Proper) (code : Nat) (q : ℚ) :
    |q - format.magnitude code| ≤ |q - format.magnitude (code + 1)| ↔ q ≤ format.halfway code := by
  have hlt := strictMono_magnitude h code.lt_add_one
  rw [abs_sub_le_abs_sub_iff hlt, halfway, le_div_iff₀' two_pos]

theorem near_succ_iff (h : format.Proper) (code : Nat) (q : ℚ) :
    |q - format.magnitude (code + 1)| ≤ |q - format.magnitude code| ↔ format.halfway code ≤ q := by
  have hlt := strictMono_magnitude h code.lt_add_one
  rw [abs_sub_le_abs_sub_iff' hlt, halfway, div_le_iff₀' two_pos]

/-- Infinity is what is between from the last halfway point on. -/
theorem Between.overflow_iff (h : format.Proper) {q : ℚ} {code : Nat}
    (hbetween : format.Between q code) :
    code = format.infinity ↔ format.halfway (format.infinity - 1) ≤ q := by
  have hpos := h.infinity_pos
  constructor
  · intro hcode
    exact (hbetween.below _ (by omega)).1
  · intro hle
    by_contra hne
    -- A number at the last halfway point is not below infinity, as the code there is odd.
    have hlt := Nat.lt_of_le_of_ne hbetween.le_infinity hne
    obtain ⟨hq, heven⟩ := hbetween.above hlt
    have hhalf := (strictMono_halfway h).monotone (Nat.le_sub_one_of_lt hlt)
    have hlast : code = format.infinity - 1 := (strictMono_halfway h).injective (by linarith)
    have hodd : ¬ Even (format.infinity - 1) := by
      rw [Nat.even_sub hpos, iff_true_left h.even_infinity]
      decide
    exact hodd (hlast ▸ heven (by linarith))

theorem Between.nearest (h : format.Proper) {q : ℚ} {code : Nat} (hbetween : format.Between q code) :
    format.Nearest q code := by
  have hmono := strictMono_magnitude h
  -- What is nearer above the code, or as near, is the next code, and below it the one before.
  have habove : code < format.infinity → ∀ other, code < other →
      |q - format.magnitude code| ≤ |q - format.magnitude other| ∧
        (|q - format.magnitude other| ≤ |q - format.magnitude code| → Even code) := by
    intro hcode other hlt
    obtain ⟨hle, heven⟩ := hbetween.above hcode
    have hother : format.magnitude (code + 1) ≤ format.magnitude other := hmono.monotone hlt
    rw [abs_sub_le_abs_sub_iff (hmono hlt), abs_sub_le_abs_sub_iff' (hmono hlt)]
    rw [halfway] at hle heven
    exact ⟨by linarith, fun hge => heven (by linarith)⟩
  have hbelow : ∀ other, other < code →
      |q - format.magnitude code| ≤ |q - format.magnitude other| ∧
        (|q - format.magnitude other| ≤ |q - format.magnitude code| → Even code) := by
    intro other hlt
    obtain ⟨lower, rfl⟩ := Nat.exists_eq_add_one_of_ne_zero (Nat.ne_zero_of_lt hlt)
    obtain ⟨hle, heven⟩ := hbetween.below lower rfl
    have hother := hmono.monotone (Nat.le_of_lt_succ hlt)
    rw [abs_sub_le_abs_sub_iff (hmono hlt), abs_sub_le_abs_sub_iff' (hmono hlt)]
    rw [halfway] at hle heven
    exact ⟨by linarith, fun hge => heven (by linarith)⟩
  refine ⟨hbetween.le_infinity, ?_, ?_, halfway_eq h _ ▸ hbetween.overflow_iff h⟩
  · intro hcode other _
    rcases Nat.lt_trichotomy other code with hlt | rfl | hlt
    · exact (hbelow other hlt).1
    · exact le_rfl
    · exact (habove hcode other hlt).1
  · intro hcode other _ hne heq
    rw [h.even_significand_iff]
    rcases Nat.lt_or_gt_of_ne hne with hlt | hlt
    · exact (hbelow other hlt).2 heq.ge
    · exact (habove hcode other hlt).2 heq.ge

theorem Nearest.between (h : format.Proper) {q : ℚ} {code : Nat} (hnearest : format.Nearest q code) :
    format.Between q code := by
  have hoverflow := hnearest.overflow
  rw [← halfway_eq h] at hoverflow
  have htie : ∀ other < format.infinity, other ≠ code → code < format.infinity →
      |q - format.magnitude other| ≤ |q - format.magnitude code| → Even code := by
    intro other hother hne hcode hle
    have hge := hnearest.nearest hcode other hother
    exact (h.even_significand_iff code).mp (hnearest.tie hcode other hother hne (le_antisymm hge hle))
  refine ⟨hnearest.le_infinity, ?_, ?_⟩
  · rintro lower rfl
    rcases Nat.lt_or_eq_of_le hnearest.le_infinity with hcode | hcode
    · have hlower : lower < format.infinity := by omega
      refine ⟨(near_succ_iff h lower q).mp (hnearest.nearest hcode lower hlower), fun heq => ?_⟩
      exact htie lower hlower (by omega) hcode ((near_code_iff h lower q).mpr heq.ge)
    · rw [hcode]
      refine ⟨?_, fun _ => h.even_infinity⟩
      have hle := hoverflow.mp hcode
      rwa [← hcode, Nat.add_sub_cancel] at hle
  · intro hcode
    rcases Nat.lt_or_eq_of_le (Nat.succ_le_of_lt hcode) with hnext | hnext
    · refine ⟨(near_code_iff h code q).mp (hnearest.nearest hcode _ hnext), fun heq => ?_⟩
      exact htie _ hnext (Nat.succ_ne_self code) hcode ((near_succ_iff h code q).mpr heq.ge)
    · rw [← hnext, Nat.succ_sub_one] at hoverflow
      have hlt := not_le.mp fun hle => (Nat.lt_succ_self code).ne (hoverflow.mpr hle)
      exact ⟨hlt.le, fun heq => absurd heq hlt.ne⟩

/-- **Being nearest is being between the halfway points.** -/
theorem nearest_iff_between (h : format.Proper) {q : ℚ} {code : Nat} :
    format.Nearest q code ↔ format.Between q code :=
  ⟨Nearest.between h, Between.nearest h⟩

theorem between_zero {q : ℚ} (h : q < format.halfway 0) : format.Between q 0 :=
  ⟨Nat.zero_le _, fun _ hlower => absurd hlower (Nat.succ_ne_zero _), fun _ => ⟨h.le, fun _ => Even.zero⟩⟩

theorem between_infinity (h : format.Proper) {q : ℚ}
    (hq : format.halfway (format.infinity - 1) ≤ q) : format.Between q format.infinity := by
  refine ⟨le_rfl, fun lower hlower => ⟨?_, fun _ => h.even_infinity⟩, fun hlt => ?_⟩
  · rwa [← hlower, Nat.add_sub_cancel] at hq
  · exact absurd hlt (lt_irrefl _)

/-- There is one nearest code only. -/
theorem Nearest.unique (h : format.Proper) {q : ℚ} {code other : Nat}
    (hcode : format.Nearest q code) (hother : format.Nearest q other) : code = other := by
  rw [nearest_iff_between h] at hcode hother
  wlog hlt : code < other generalizing code other
  · rcases Nat.eq_or_lt_of_not_lt hlt with heq | hgt
    · exact heq
    · exact (this hother hcode hgt).symm
  exfalso
  obtain ⟨lower, rfl⟩ := Nat.exists_eq_add_one_of_ne_zero (Nat.ne_zero_of_lt hlt)
  obtain ⟨hle, heven⟩ := hother.below lower rfl
  obtain ⟨hge, heven'⟩ := hcode.above (Nat.lt_of_lt_of_le hlt hother.le_infinity)
  have hhalf := (strictMono_halfway h).monotone (Nat.le_of_lt_succ hlt)
  -- Both are at the one halfway point between them, and cannot both be even.
  obtain rfl : code = lower := (strictMono_halfway h).injective (by linarith)
  have hparity := heven (by linarith)
  rw [Nat.even_add_one] at hparity
  exact hparity (heven' (by linarith))

/-! ## Rounding -/

theorem roundHalfEven_spec {den : Nat} (hden : 0 < den) (num : Nat) :
    let nearest := roundHalfEven num den
    (2 * num ≤ (2 * nearest + 1) * den ∧ (2 * num = (2 * nearest + 1) * den → Even nearest)) ∧
      (2 * nearest * den ≤ 2 * num + den ∧ (2 * nearest * den = 2 * num + den → Even nearest)) := by
  have hmod := Nat.mod_lt num hden
  have hdiv := Nat.div_add_mod' num den
  rw [roundHalfEven]
  generalize num / den = q at *
  generalize num % den = r at *
  obtain rfl := hdiv
  dsimp only
  have hup : 2 * (q + 1) * den = 2 * (q * den) + 2 * den := by ring
  have hsame : 2 * q * den = 2 * (q * den) := by ring
  generalize q * den = whole at *
  split
  · next hdown =>
    rw [Nat.add_mul, hsame, Nat.even_iff]
    omega
  · next hdown =>
    rw [Nat.add_mul, hup, Nat.even_iff]
    omega

theorem halfway_eq_steps (h : format.Proper) (code : Nat) :
    format.halfway code =
      ((format.steps code + format.steps (code + 1) : Nat) : ℚ) / (2 * 2 ^ format.scale) := by
  rw [halfway, magnitude_eq_steps h, magnitude_eq_steps h]
  push_cast
  ring

section

variable {num den : Nat}

theorem le_halfway_iff (h : format.Proper) (hden : 0 < den) (code : Nat) :
    (num / den : ℚ) ≤ format.halfway code ↔
      2 * (num * 2 ^ format.scale) ≤ (format.steps code + format.steps (code + 1)) * den := by
  have hden' : (0 : ℚ) < den := Nat.cast_pos.mpr hden
  rw [halfway_eq_steps h, div_le_div_iff₀ hden' (by positivity), Nat.mul_left_comm]
  exact_mod_cast Iff.rfl

theorem halfway_le_iff (h : format.Proper) (hden : 0 < den) (code : Nat) :
    format.halfway code ≤ (num / den : ℚ) ↔
      (format.steps code + format.steps (code + 1)) * den ≤ 2 * (num * 2 ^ format.scale) := by
  have hden' : (0 : ℚ) < den := Nat.cast_pos.mpr hden
  rw [halfway_eq_steps h, div_le_div_iff₀ (by positivity) hden', Nat.mul_left_comm]
  exact_mod_cast Iff.rfl

/-- The binade that rounding takes holds the quotient. -/
theorem shift_bounds (h : format.Proper) (hden : 0 < den) (num : Nat) :
    let shift := Nat.log2 (num / den) + 1 - format.precision
    num < 2 * format.binade * (den * 2 ^ shift) ∧
      (format.binade * (den * 2 ^ shift) ≤ num ∨ shift = 0) := by
  have hprecision := h.precision
  have hcomm : ∀ a b : Nat, a * (den * b) = a * b * den := fun a b => by ring
  intro shift
  rw [hcomm, hcomm, ← Nat.div_lt_iff_lt_mul hden, ← Nat.le_div_iff_mul_le hden,
    two_mul_binade (by omega), ← Nat.pow_add]
  constructor
  · calc num / den < 2 ^ (Nat.log2 (num / den) + 1) := Nat.lt_log2_self
      _ ≤ 2 ^ (format.precision + shift) := Nat.pow_le_pow_right (by decide) (by omega)
  · rcases Nat.eq_zero_or_pos shift with hzero | hpos
    · exact Or.inr hzero
    · left
      have hlog : format.precision - 1 + shift = Nat.log2 (num / den) := by omega
      have hne : num / den ≠ 0 := by
        intro hzero
        rw [hzero, Nat.log2_zero] at hlog
        omega
      show 2 ^ (format.precision - 1) * 2 ^ shift ≤ num / den
      rw [← Nat.pow_add, hlog]
      exact Nat.log2_self_le hne

/-- The nearest significand is one of the binade, or the first of the next one. -/
theorem significand_bounds {scaled unit shift : Nat} (hunit : 0 < unit)
    (hupper : scaled < 2 * format.binade * unit) (hlower : format.binade * unit ≤ scaled ∨ shift = 0) :
    (format.binade ≤ roundHalfEven scaled unit ∨ shift = 0) ∧
      roundHalfEven scaled unit ≤ 2 * format.binade := by
  obtain ⟨⟨hle, -⟩, ⟨hge, -⟩⟩ := roundHalfEven_spec hunit scaled
  constructor
  · refine hlower.imp_left fun hbinade => ?_
    have hlt : 2 * format.binade * unit ≤ (2 * roundHalfEven scaled unit + 1) * unit := by
      linarith
    have := Nat.le_of_mul_le_mul_right hlt hunit
    omega
  · have hlt : 2 * roundHalfEven scaled unit * unit < (4 * format.binade + 1) * unit := by
      rw [Nat.add_mul _ 1]
      linarith
    have := Nat.lt_of_mul_lt_mul_right hlt
    omega

/-- In the binade that holds a quotient, the nearest significand is that of a code between whose
halfway points the quotient lies. -/
theorem between_shift (h : format.Proper) {scaled shift code : Nat} (hden : 0 < den)
    (hupper : scaled < 2 * format.binade * (den * 2 ^ shift))
    (hlower : format.binade * (den * 2 ^ shift) ≤ scaled ∨ shift = 0)
    (hround : code = shift * format.binade + roundHalfEven scaled (den * 2 ^ shift)) :
    (2 * scaled ≤ (format.steps code + format.steps (code + 1)) * den ∧
      (2 * scaled = (format.steps code + format.steps (code + 1)) * den → Even code)) ∧
    ∀ lower, lower + 1 = code →
      (format.steps lower + format.steps (lower + 1)) * den ≤ 2 * scaled ∧
        ((format.steps lower + format.steps (lower + 1)) * den = 2 * scaled → Even code) := by
  have hunit : 0 < den * 2 ^ shift := Nat.mul_pos hden (Nat.two_pow_pos shift)
  obtain ⟨⟨hle, heven⟩, ⟨hge, heven'⟩⟩ := roundHalfEven_spec hunit scaled
  obtain ⟨hlow, hhigh⟩ := significand_bounds hunit hupper hlower
  generalize roundHalfEven scaled (den * 2 ^ shift) = significand at *
  have hcode : Even significand → Even (shift * format.binade + significand) :=
    fun hs => (h.even_binade.mul_left shift).add hs
  have hsteps := steps_shift_le hlow hhigh
  have hnext := steps_succ_shift hlow hhigh
  subst hround
  refine ⟨?_, fun lower hlower' => ?_⟩
  · have hsum : (2 * significand + 1) * (den * 2 ^ shift) ≤
        (format.steps (shift * format.binade + significand) +
          format.steps (shift * format.binade + significand + 1)) * den := by
      rw [hsteps]
      nlinarith
    exact ⟨hle.trans hsum, fun heq => hcode (heven (le_antisymm hle (hsum.trans heq.ge)))⟩
  · by_cases hfirst : significand = format.binade ∧ shift ≠ 0
    · -- Below the first number of a binade the steps are smaller, but the quotient is not there.
      obtain ⟨rfl, hshift⟩ := hfirst
      have hbelow := format.strictMono_steps lower.lt_add_one
      rw [hlower', hsteps] at hbelow ⊢
      have hsum : (format.steps lower + format.binade * 2 ^ shift) * den < 2 * scaled := by
        have := hlower.resolve_right hshift
        nlinarith
      exact ⟨hsum.le, fun heq => absurd heq hsum.ne⟩
    · have hne : significand ≠ 0 := by
        have hpos := format.binade_pos
        rintro rfl
        rcases hlow with hle | rfl <;> omega
      obtain ⟨before, rfl⟩ := Nat.exists_eq_add_one_of_ne_zero hne
      obtain rfl : lower = shift * format.binade + before := by omega
      have hbefore : format.steps (shift * format.binade + before) = before * 2 ^ shift :=
        steps_shift_le (by omega) (by omega)
      have hsum : (format.steps (shift * format.binade + before) +
          format.steps (shift * format.binade + before + 1)) * den + den * 2 ^ shift =
            2 * (before + 1) * (den * 2 ^ shift) := by
        rw [Nat.add_assoc, hsteps, hbefore]
        ring
      exact ⟨by omega, fun heq => hcode (heven' (by omega))⟩

/-- Beyond infinity there is nothing to round to. -/
theorem between_min (h : format.Proper) {q : ℚ} {code : Nat}
    (above : q ≤ format.halfway code ∧ (q = format.halfway code → Even code))
    (below : ∀ lower, lower + 1 = code →
      format.halfway lower ≤ q ∧ (format.halfway lower = q → Even code)) :
    format.Between q (if code < format.infinity then code else format.infinity) := by
  have hpos := h.infinity_pos
  split
  · next hlt => exact ⟨hlt.le, below, fun _ => above⟩
  · next hge =>
    refine between_infinity h ?_
    calc format.halfway (format.infinity - 1) ≤ format.halfway (code - 1) :=
          (strictMono_halfway h).monotone (by omega)
      _ ≤ q := (below (code - 1) (by omega)).1

/-- **A quotient is rounded to the code whose halfway points it lies between.** -/
theorem between_round (h : format.Proper) (hden : 0 < den) (num : Nat) :
    format.Between (num / den) (format.round num den) := by
  let scaled := num * 2 ^ format.scale
  let shift := Nat.log2 (scaled / den) + 1 - format.precision
  obtain ⟨code, hround⟩ :
      ∃ code, code = shift * format.binade + roundHalfEven scaled (den * 2 ^ shift) := ⟨_, rfl⟩
  obtain ⟨hupper, hlower⟩ := shift_bounds h hden scaled
  obtain ⟨⟨hle, heven⟩, hbelow⟩ := between_shift h hden hupper hlower hround
  have hclip : format.round num den = if code < format.infinity then code else format.infinity := by
    rw [hround]
    rfl
  rw [hclip]
  refine between_min h ⟨(le_halfway_iff h hden code).mpr hle, fun heq => ?_⟩ fun lower hlower => ?_
  · exact heven (le_antisymm hle ((halfway_le_iff h hden code).mp heq.ge))
  · obtain ⟨hge, heven⟩ := hbelow lower hlower
    refine ⟨(halfway_le_iff h hden lower).mpr hge, fun heq => heven (le_antisymm hge ?_)⟩
    exact (le_halfway_iff h hden lower).mp heq.ge

end

end BitLayout.FloatFormat
