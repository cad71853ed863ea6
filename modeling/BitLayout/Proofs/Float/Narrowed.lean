import BitLayout.Proofs.Float.Decimal
import BitLayout.Proofs.Float.Nearest

/-!
# A decimal rounded to 64 bits, and from there to 32

A decimal is rounded to the nearest number of 64 bits (`between_ofDecimal`).
The two cut-offs for decimals that are not written out lie below half of the
least positive number and above the last halfway point.

Converting a number of one format rounds it once more (`between_convert`). A
decimal that comes to 32 bits by way of 64 is thus rounded twice. That is
mostly the same as rounding it once, because the halfway points of 32 bits are
numbers of 64 bits (`exists_halfway_double`): the first rounding moves nothing
across one of them. But it may move the decimal onto one, and there the tie
goes to the even code, wherever the decimal was. `Astray` is this case, and
it is the only one in which another code is nearer to the decimal
(`between_narrowed_iff`).
-/

namespace BitLayout

namespace Decimal

theorem value_lt (d : Decimal) : d.value < 10 ^ d.magnitude := by
  have hdigits : (d.digits : ℚ) < 10 ^ (Numeral.digits .dec d.digits).length := by
    exact_mod_cast Numeral.lt_pow_length_digits d.digits
  rw [value, magnitude, zpow_add₀ (by norm_num), zpow_natCast]
  gcongr

theorem le_value {d : Decimal} (h : 0 < d.digits) : 10 ^ (d.magnitude - 1) ≤ d.value := by
  obtain ⟨count, hcount⟩ : ∃ count, (Numeral.digits .dec d.digits).length = count + 1 :=
    Nat.exists_eq_add_one_of_ne_zero fun hnil => Nat.toDigits_ne_nil (List.length_eq_zero_iff.mp hnil)
  have hmagnitude : d.magnitude - 1 = (count : ℤ) + d.exponent := by
    rw [magnitude, hcount]
    omega
  have hdigits : (10 : ℚ) ^ count ≤ d.digits := by
    exact_mod_cast Numeral.pow_le_of_length_digits h hcount
  rw [value, hmagnitude, zpow_add₀ (by norm_num), zpow_natCast]
  gcongr

end Decimal

namespace FloatFormat

open Decimal

/-! ## Decimals -/

/-- **A decimal is rounded to the nearest number of 64 bits.** -/
theorem between_ofDecimal (d : Decimal) : double.Between d.value (double.ofDecimal d) := by
  rcases Nat.eq_zero_or_pos d.digits with hzero | hpos
  · rw [ofDecimal_zero hzero]
    refine between_zero ?_
    rw [value, hzero, Nat.cast_zero, zero_mul]
    decide +kernel
  rcases Int.lt_or_le d.magnitude (-400) with hlow | hlow
  · rw [ofDecimal_low hlow]
    refine between_zero ?_
    calc d.value < 10 ^ d.magnitude := d.value_lt
      _ ≤ 10 ^ (-401 : ℤ) := zpow_le_zpow_right₀ (by norm_num) (by omega)
      _ < double.halfway 0 := by decide +kernel
  rcases Int.lt_or_le 400 d.magnitude with hhigh | hhigh
  · rw [ofDecimal_high hpos hhigh]
    refine between_infinity proper_double ?_
    calc double.halfway (double.infinity - 1) ≤ 10 ^ (400 : ℤ) := by decide +kernel
      _ ≤ 10 ^ (d.magnitude - 1) := zpow_le_zpow_right₀ (by norm_num) (by omega)
      _ ≤ d.value := le_value hpos
  obtain ⟨a, b, hexponent⟩ : ∃ a b : Nat, d.exponent = a - b :=
    ⟨d.exponent.toNat, (-d.exponent).toNat, by omega⟩
  have hvalue : d.value = ((d.digits * 10 ^ a : Nat) : ℚ) / ((10 ^ b : Nat) : ℚ) := by
    rw [value, hexponent, zpow_sub₀ (by norm_num), zpow_natCast, zpow_natCast]
    push_cast
    ring
  rw [ofDecimal_eq_round hpos hlow hhigh hexponent, hvalue]
  exact between_round proper_double (Nat.pow_pos (by decide)) _

/-! ## Narrowing -/

theorem between_convert {source target : FloatFormat} (hsource : source.Proper)
    (htarget : target.Proper) {code : Nat} (hcode : code < source.infinity) :
    target.Between (source.magnitude code) (convert source target code) := by
  have hround := between_round htarget (Nat.two_pow_pos source.scale) (source.steps code)
  rw [convert, if_pos hcode, magnitude_eq_steps hsource]
  push_cast at hround
  exact hround

/-- Halfway between two numbers of 32 bits there is a number of 64 bits. -/
theorem exists_halfway_double {code : Nat} (hcode : code < single.infinity) :
    ∃ wide < double.infinity, double.magnitude wide = single.halfway code := by
  obtain ⟨shift, significand, rfl, hlow, hhigh⟩ := exists_shift single code
  have hlow' : single.binade ≤ significand + 1 ∨ shift = 0 := hlow.imp_left Nat.le_succ_of_le
  have hshift : shift < 2 ^ single.exponentBits - 1 :=
    Nat.lt_of_mul_lt_mul_right (Nat.lt_of_le_of_lt (Nat.le_add_right _ significand) hcode)
  -- The middle has one significant bit more, and counts in halves of the least positive number.
  obtain ⟨gap, hgap, hrange⟩ : ∃ gap, double.scale = gap + (single.scale + 1) ∧
      2 ^ single.exponentBits + gap < 2 ^ double.exponentBits := ⟨924, by decide, by decide⟩
  have hbits : 4 * single.binade ≤ 2 ^ double.precision := by decide
  obtain ⟨wide, hwide, hsteps⟩ := @exists_steps_eq double (by decide) (2 * significand + 1)
    (shift + gap) (by omega) (by omega)
  refine ⟨wide, hwide, ?_⟩
  rw [magnitude_eq_steps proper_double, hsteps, halfway_eq_steps proper_single,
    steps_shift hlow hhigh, Nat.add_assoc, steps_shift_le hlow' hhigh, hgap]
  push_cast
  rw [div_eq_div_iff (by positivity) (by positivity)]
  ring

/-- The first rounding has moved a number onto the halfway point between a code and the other
neighbour of that point, which is the one that the number was nearer to. -/
def Astray (q moved : ℚ) (code : Nat) : Prop :=
  (code < single.infinity ∧ moved = single.halfway code ∧ moved < q) ∨
    ∃ lower, lower + 1 = code ∧ moved = single.halfway lower ∧ q < moved

section

variable {q : ℚ} {wide code : Nat}

/-- Rounding to 64 bits moves nothing across a number of 64 bits. -/
theorem lt_of_magnitude_lt (hwide : double.Between q wide) (hfinite : wide < double.infinity)
    {bound : Nat} (h : double.magnitude wide < double.magnitude bound) :
    q < double.magnitude bound := by
  have hmono := strictMono_magnitude proper_double
  have hlt : wide < bound := hmono.lt_iff_lt.mp h
  calc q ≤ double.halfway wide := (hwide.above hfinite).1
    _ < double.magnitude (wide + 1) := (magnitude_lt_halfway proper_double wide).2
    _ ≤ double.magnitude bound := hmono.monotone hlt

theorem lt_of_lt_magnitude (hwide : double.Between q wide) {bound : Nat}
    (h : double.magnitude bound < double.magnitude wide) : double.magnitude bound < q := by
  have hmono := strictMono_magnitude proper_double
  have hlt : bound < wide := hmono.lt_iff_lt.mp h
  obtain ⟨lower, rfl⟩ := Nat.exists_eq_add_one_of_ne_zero (Nat.ne_zero_of_lt hlt)
  calc double.magnitude bound ≤ double.magnitude lower := hmono.monotone (Nat.le_of_lt_succ hlt)
    _ < double.halfway lower := (magnitude_lt_halfway proper_double lower).1
    _ ≤ q := (hwide.below lower rfl).1

/-- A halfway point of 32 bits is below a number as it is below the rounded one, unless it is the
rounded one. -/
theorem halfway_le_of_narrowed (hwide : double.Between q wide) {lower : Nat}
    (hlower : lower < single.infinity) (hle : single.halfway lower ≤ double.magnitude wide)
    (hstraight : double.magnitude wide = single.halfway lower → ¬ q < double.magnitude wide) :
    single.halfway lower ≤ q ∧
      (single.halfway lower = q → single.halfway lower = double.magnitude wide) := by
  obtain ⟨bound, -, hbound⟩ := exists_halfway_double hlower
  rcases lt_or_eq_of_le hle with hlt | heq
  · rw [← hbound] at hlt ⊢
    have hq := lt_of_lt_magnitude hwide hlt
    exact ⟨hq.le, fun heq => absurd heq hq.ne⟩
  · refine ⟨?_, fun _ => heq⟩
    rw [heq]
    exact not_lt.mp (hstraight heq.symm)

theorem le_halfway_of_narrowed (hwide : double.Between q wide) (hfinite : wide < double.infinity)
    (hcode : code < single.infinity) (hle : double.magnitude wide ≤ single.halfway code)
    (hstraight : double.magnitude wide = single.halfway code → ¬ double.magnitude wide < q) :
    q ≤ single.halfway code ∧
      (q = single.halfway code → double.magnitude wide = single.halfway code) := by
  obtain ⟨bound, -, hbound⟩ := exists_halfway_double hcode
  rcases lt_or_eq_of_le hle with hlt | heq
  · rw [← hbound] at hlt ⊢
    have hq := lt_of_magnitude_lt hwide hfinite hlt
    exact ⟨hq.le, fun heq => absurd heq hq.ne⟩
  · refine ⟨?_, fun _ => heq⟩
    rw [← heq]
    exact not_lt.mp (hstraight heq)

/-- **Rounded twice**, a number comes to the code it would have come to at once, unless the
first rounding has led it astray. -/
theorem between_narrowed_iff (hwide : double.Between q wide) (hfinite : wide < double.infinity)
    (hcode : single.Between (double.magnitude wide) code) :
    single.Between q code ↔ ¬ Astray q (double.magnitude wide) code := by
  constructor
  · rintro hbetween (⟨hlt, hmoved, hup⟩ | ⟨lower, rfl, hmoved, hdown⟩)
    · have hle := (hbetween.above hlt).1
      rw [← hmoved] at hle
      exact absurd hup (not_lt.mpr hle)
    · have hge := (hbetween.below lower rfl).1
      rw [← hmoved] at hge
      exact absurd hdown (not_lt.mpr hge)
  · intro hstraight
    rw [Astray, not_or] at hstraight
    obtain ⟨hup, hdown⟩ := hstraight
    refine ⟨hcode.le_infinity, ?_, ?_⟩
    · rintro lower rfl
      obtain ⟨hle, heven⟩ := hcode.below lower rfl
      obtain ⟨hq, heq⟩ := halfway_le_of_narrowed hwide hcode.le_infinity hle
        fun hmoved hlt => hdown ⟨lower, rfl, hmoved, hlt⟩
      exact ⟨hq, fun hhalf => heven (heq hhalf)⟩
    · intro hlt
      obtain ⟨hle, heven⟩ := hcode.above hlt
      obtain ⟨hq, heq⟩ := le_halfway_of_narrowed hwide hfinite hlt hle
        fun hmoved hmore => hup ⟨hlt, hmoved, hmore⟩
      exact ⟨hq, fun hhalf => heven (heq hhalf)⟩

/-- What is beyond the numbers of 64 bits is beyond those of 32. -/
theorem between_infinity_of_double (hwide : double.Between q double.infinity) :
    single.Between q single.infinity := by
  refine between_infinity proper_single ?_
  obtain ⟨bound, hbound, hhalfway⟩ :=
    exists_halfway_double (Nat.sub_one_lt (Nat.ne_of_gt proper_single.infinity_pos))
  have hlast := (hwide.below (double.infinity - 1) (by decide)).1
  calc single.halfway (single.infinity - 1) = double.magnitude bound := hhalfway.symm
    _ ≤ double.magnitude (double.infinity - 1) :=
      (strictMono_magnitude proper_double).monotone (Nat.le_sub_one_of_lt hbound)
    _ ≤ double.halfway (double.infinity - 1) := (magnitude_lt_halfway proper_double _).1.le
    _ ≤ q := hlast

end

end FloatFormat

end BitLayout
