import BitLayout.Decimal.Notation
import BitLayout.Proofs.Float.Exact
import BitLayout.Proofs.Numeral.RoundTrip

/-!
# Decimals lead back to the codes they stand for

The code nearest to a decimal depends on its number only, not on how many
zeros are written at the end of its digits (`ofDecimal_congr`). Two cut-offs
keep decimals that are far beyond all codes from being written out; neither
is between the decimals of one number, because a zero more in the digits is
one less in the exponent.

The exact decimal of a code leads back to it (`ofDecimal_exact`), and every
shorter one that the search tries is kept only if it does
(`ofDecimal_shortest`).
-/

namespace BitLayout

namespace Numeral

/-! ## Counting digits -/

theorem lt_pow_length_digits (n : Nat) : n < 10 ^ (digits .dec n).length := by
  refine @digits_induction .dec (fun n text => n < 10 ^ text.length) (fun n h => h)
    (fun n front _ hfront => ?_) n
  rw [List.length_append, List.length_singleton, Nat.pow_succ]
  have hdiv : n / 10 < 10 ^ front.length := hfront
  omega

/-- A number with `k` digits at least is not below the first such number. -/
theorem lt_length_digits {n k : Nat} (h : 10 ^ k ≤ n) : k < (digits .dec n).length :=
  (Nat.pow_lt_pow_iff_right (by decide)).mp (Nat.lt_of_le_of_lt h (lt_pow_length_digits n))

/-- A number is not below the power of ten that its first digit counts for. -/
theorem pow_le_of_length_digits {n count : Nat} (h : 0 < n)
    (hlength : (digits .dec n).length = count + 1) : 10 ^ count ≤ n := by
  by_contra hlt
  have hpos : 0 < count := by
    refine Nat.pos_of_ne_zero ?_
    rintro rfl
    rw [Nat.pow_zero] at hlt
    omega
  have hle : (digits .dec n).length ≤ count :=
    Nat.toDigits_length 10 n count hpos (Nat.lt_of_not_le hlt)
  omega

/-- Each factor of ten is one more digit. -/
theorem length_digits_mul_pow {n : Nat} (h : 0 < n) (k : Nat) :
    (digits .dec (n * 10 ^ k)).length = (digits .dec n).length + k := by
  induction k with
  | zero => rw [Nat.pow_zero, Nat.mul_one, Nat.add_zero]
  | succ k ih =>
    have hpos : 0 < n * 10 ^ k := Nat.mul_pos h (Nat.pow_pos (by decide))
    have hbase : Radix.dec.base ≤ n * 10 ^ k * 10 := by
      show 10 ≤ _
      omega
    rw [Nat.pow_succ, ← Nat.mul_assoc, digits_of_le hbase, List.length_append,
      List.length_singleton, show n * 10 ^ k * 10 / Radix.dec.base = n * 10 ^ k from
        Nat.mul_div_cancel _ (by decide), ih, Nat.add_assoc]

end Numeral

namespace Decimal

/-! ## Decimals of one number -/

/-- Two decimals are one number: with zeros at the ends of their digits they are equal. -/
def Same (d other : Decimal) : Prop :=
  ∃ zeros others : Nat, d.digits * 10 ^ zeros = other.digits * 10 ^ others ∧
    d.exponent - zeros = other.exponent - others

theorem Same.refl (d : Decimal) : d.Same d :=
  ⟨0, 0, rfl, rfl⟩

theorem Same.symm {d other : Decimal} (h : d.Same other) : other.Same d := by
  obtain ⟨zeros, others, hdigits, hexponent⟩ := h
  exact ⟨others, zeros, hdigits.symm, hexponent.symm⟩

theorem Same.trans {d middle other : Decimal} (h : d.Same middle) (h' : middle.Same other) :
    d.Same other := by
  obtain ⟨a, b, hdigits, hexponent⟩ := h
  obtain ⟨c, e, hdigits', hexponent'⟩ := h'
  refine ⟨a + c, b + e, ?_, by push_cast; omega⟩
  calc d.digits * 10 ^ (a + c) = d.digits * 10 ^ a * 10 ^ c := by ring
    _ = middle.digits * 10 ^ b * 10 ^ c := by rw [hdigits]
    _ = middle.digits * 10 ^ c * 10 ^ b := by ring
    _ = other.digits * 10 ^ e * 10 ^ b := by rw [hdigits']
    _ = other.digits * 10 ^ (b + e) := by ring

/-- Zeros at the end of the digits are taken off the exponent. -/
theorem same_mul_pow (digits zeros : Nat) (exponent : Int) :
    Same ⟨digits * 10 ^ zeros, exponent⟩ ⟨digits, exponent + zeros⟩ :=
  ⟨0, zeros, by rw [Nat.pow_zero, Nat.mul_one], by simp⟩

/-- Zero is the same number with any exponent. -/
theorem same_zero (exponent other : Int) : Same ⟨0, exponent⟩ ⟨0, other⟩ :=
  ⟨(exponent - other).toNat, (other - exponent).toNat, by rw [Nat.zero_mul, Nat.zero_mul],
    by dsimp only; omega⟩

theorem Same.digits_eq_zero {d other : Decimal} (h : d.Same other) (hzero : d.digits = 0) :
    other.digits = 0 := by
  obtain ⟨zeros, others, hdigits, -⟩ := h
  rw [hzero, Nat.zero_mul] at hdigits
  exact (Nat.mul_eq_zero.mp hdigits.symm).resolve_right (Nat.ne_of_gt (Nat.pow_pos (by decide)))

/-- The number that is written. -/
def value (d : Decimal) : ℚ :=
  d.digits * 10 ^ d.exponent

/-- The power of ten that a number is just below. -/
def magnitude (d : Decimal) : Int :=
  (Numeral.digits .dec d.digits).length + d.exponent

theorem Same.magnitude_eq {d other : Decimal} (h : d.Same other) (hpos : 0 < d.digits) :
    d.magnitude = other.magnitude := by
  have hpos' : 0 < other.digits :=
    Nat.pos_of_ne_zero fun hzero => Nat.ne_of_gt hpos (h.symm.digits_eq_zero hzero)
  obtain ⟨zeros, others, hdigits, hexponent⟩ := h
  have hlength := Numeral.length_digits_mul_pow hpos zeros
  rw [hdigits, Numeral.length_digits_mul_pow hpos'] at hlength
  rw [magnitude, magnitude]
  omega

end Decimal

namespace FloatFormat

open Decimal

variable {format : FloatFormat}

/-- A decimal within the cut-offs is rounded as a quotient, in any terms. -/
theorem ofDecimal_eq_round {d : Decimal} (hpos : 0 < d.digits) (hlow : -400 ≤ d.magnitude)
    (hhigh : d.magnitude ≤ 400) {a b : Nat} (hexponent : d.exponent = a - b) :
    format.ofDecimal d = format.round (d.digits * 10 ^ a) (10 ^ b) := by
  obtain ⟨digits, exponent⟩ := d
  rw [Decimal.magnitude] at hlow hhigh
  dsimp only at hpos hlow hhigh hexponent ⊢
  rw [ofDecimal]
  dsimp only
  rw [if_neg (by omega), if_neg (by omega)]
  split
  · next hnonneg =>
    have ha : a = b + exponent.toNat := by omega
    calc format.round (digits * 10 ^ exponent.toNat) 1
        = format.round (10 ^ b * (digits * 10 ^ exponent.toNat)) (10 ^ b * 1) :=
          (round_mul_left (Nat.pow_pos (by decide)) _ _).symm
      _ = format.round (digits * 10 ^ a) (10 ^ b) := by
          rw [ha, Nat.pow_add, Nat.mul_one, Nat.mul_left_comm]
  · next hnegative =>
    have hb : b = a + (-exponent).toNat := by omega
    calc format.round digits (10 ^ (-exponent).toNat)
        = format.round (10 ^ a * digits) (10 ^ a * 10 ^ (-exponent).toNat) :=
          (round_mul_left (Nat.pow_pos (by decide)) _ _).symm
      _ = format.round (digits * 10 ^ a) (10 ^ b) := by
          rw [hb, Nat.pow_add, Nat.mul_comm digits]

theorem ofDecimal_zero {d : Decimal} (h : d.digits = 0) : format.ofDecimal d = 0 := by
  rw [ofDecimal]
  exact if_pos (Or.inl h)

theorem ofDecimal_low {d : Decimal} (h : d.magnitude < -400) : format.ofDecimal d = 0 := by
  rw [ofDecimal]
  exact if_pos (Or.inr h)

theorem ofDecimal_high {d : Decimal} (hpos : 0 < d.digits) (h : 400 < d.magnitude) :
    format.ofDecimal d = format.infinity := by
  rw [Decimal.magnitude] at h
  rw [ofDecimal, if_neg (by omega)]
  exact if_pos h

/-- The code of a decimal depends on its number only. -/
theorem ofDecimal_congr {d other : Decimal} (h : d.Same other) :
    format.ofDecimal d = format.ofDecimal other := by
  rcases Nat.eq_zero_or_pos d.digits with hzero | hpos
  · rw [ofDecimal_zero hzero, ofDecimal_zero (h.digits_eq_zero hzero)]
  have hpos' : 0 < other.digits :=
    Nat.pos_of_ne_zero fun hzero => Nat.ne_of_gt hpos (h.symm.digits_eq_zero hzero)
  have hmagnitude := h.magnitude_eq hpos
  rcases Int.lt_or_le d.magnitude (-400) with hlow | hlow
  · rw [ofDecimal_low hlow, ofDecimal_low (hmagnitude ▸ hlow)]
  rcases Int.lt_or_le 400 d.magnitude with hhigh | hhigh
  · rw [ofDecimal_high hpos hhigh, ofDecimal_high hpos' (hmagnitude ▸ hhigh)]
  obtain ⟨zeros, others, hdigits, hexponent⟩ := h
  -- The powers `a` and `b` write both decimals as quotients with the same terms.
  obtain ⟨a, b, hab⟩ : ∃ a b : Nat, d.exponent - zeros = a - b :=
    ⟨(d.exponent - zeros).toNat, (zeros - d.exponent).toNat, by omega⟩
  have hd : d.exponent = ((zeros + a : Nat) : Int) - b := by push_cast; omega
  have hother : other.exponent = ((others + a : Nat) : Int) - b := by push_cast; omega
  rw [ofDecimal_eq_round hpos hlow hhigh hd,
    ofDecimal_eq_round hpos' (hmagnitude ▸ hlow) (hmagnitude ▸ hhigh) hother,
    Nat.pow_add, Nat.pow_add, ← Nat.mul_assoc, ← Nat.mul_assoc, hdigits]

/-! ## The decimal of a code -/

theorem steps_eq_zero {code : Nat} (h : format.steps code = 0) : code = 0 := by
  obtain ⟨shift, significand, rfl, hlow, hhigh⟩ := exists_shift format code
  rw [steps_shift hlow hhigh] at h
  obtain rfl := (Nat.mul_eq_zero.mp h).resolve_right (Nat.ne_of_gt (Nat.pow_pos (by decide)))
  obtain rfl := hlow.resolve_left (Nat.not_le.mpr format.binade_pos)
  rw [Nat.zero_mul]

theorem steps_zero (format : FloatFormat) : format.steps 0 = 0 := by
  have h := @steps_shift format 0 0 (Or.inr rfl) (by have := format.binade_pos; omega)
  rwa [Nat.zero_mul, Nat.zero_mul, Nat.zero_add] at h

theorem steps_pos {code : Nat} (h : 0 < code) : 0 < format.steps code :=
  Nat.pos_of_ne_zero fun hzero => Nat.ne_of_gt h (steps_eq_zero hzero)

theorem exact_eq (code : Nat) :
    exact code = ⟨double.steps code * 5 ^ double.scale, -(double.scale : Int)⟩ := by
  rw [exact, Nat.pow_eq]

/-- The numbers of 64 bits are within the cut-offs. -/
theorem magnitude_exact {code : Nat} (hcode : code < double.infinity) (hpos : 0 < code) :
    -400 ≤ (exact code).magnitude ∧ (exact code).magnitude ≤ 400 := by
  obtain ⟨significand, shift, hsignificand, hshift, hsteps⟩ := steps_eq (by decide) hcode
  have hlow : 10 ^ 674 ≤ double.steps code * 5 ^ double.scale :=
    calc 10 ^ 674 ≤ 5 ^ double.scale := by decide +kernel
      _ ≤ double.steps code * 5 ^ double.scale := Nat.le_mul_of_pos_left _ (steps_pos hpos)
  have hpow : 2 ^ shift ≤ 2 ^ 2 ^ double.exponentBits :=
    Nat.pow_le_pow_right (by decide) (by omega)
  have hhigh : double.steps code * 5 ^ double.scale < 10 ^ 1474 :=
    calc double.steps code * 5 ^ double.scale
        < 2 ^ double.precision * 2 ^ 2 ^ double.exponentBits * 5 ^ double.scale := by
          rw [hsteps]
          exact Nat.mul_lt_mul_of_pos_right
            (Nat.mul_lt_mul_of_lt_of_le hsignificand hpow (Nat.pow_pos (by decide)))
            (Nat.pow_pos (by decide))
      _ < 10 ^ 1474 := by decide +kernel
  have hlength := Numeral.lt_length_digits hlow
  have hlength' : (Numeral.digits .dec (double.steps code * 5 ^ double.scale)).length ≤ 1474 :=
    Nat.toDigits_length 10 _ _ (by decide) hhigh
  have hscale : double.scale = 1074 := by decide
  rw [exact_eq, Decimal.magnitude]
  clear hlow hhigh hpow
  constructor <;> dsimp only <;> omega

theorem ofDecimal_exact {code : Nat} (hcode : code < double.infinity) :
    double.ofDecimal (exact code) = code := by
  rcases Nat.eq_zero_or_pos code with rfl | hpos
  · exact ofDecimal_zero (by rw [exact, steps_zero, Nat.zero_mul])
  obtain ⟨hlow, hhigh⟩ := magnitude_exact hcode hpos
  have hten : ∀ s : Nat, 5 ^ s * 2 ^ s = 10 ^ s := fun s => (Nat.mul_pow 5 2 s).symm
  rw [exact_eq] at hlow hhigh ⊢
  rw [ofDecimal_eq_round (Nat.mul_pos (steps_pos hpos) (Nat.pow_pos (by decide))) hlow hhigh
    (Int.zero_sub _).symm]
  refine round_eq (by decide) (Nat.pow_pos (by decide)) hcode ?_
  rw [Nat.pow_zero, Nat.mul_one, Nat.mul_assoc, hten]

theorem ofDecimal_neighbour {code dropped : Nat} {d kept : Decimal}
    (h : neighbour? code d dropped = some kept) : double.ofDecimal kept = code := by
  rw [neighbour?] at h
  split at h
  · next hbelow habove =>
    obtain rfl := Option.some.inj h
    split
    · exact of_decide_eq_true hbelow
    · exact of_decide_eq_true habove
  · next hbelow _ =>
    obtain rfl := Option.some.inj h
    exact of_decide_eq_true hbelow
  · next _ habove =>
    obtain rfl := Option.some.inj h
    exact of_decide_eq_true habove
  · cases h

theorem ofDecimal_shortest {code : Nat} (hcode : code < double.infinity) :
    double.ofDecimal (shortest code) = code := by
  rw [shortest]
  cases hfound : List.findSome? _ _ with
  | none => exact ofDecimal_exact hcode
  | some kept =>
    obtain ⟨count, -, hkept⟩ := List.exists_of_findSome?_eq_some hfound
    exact ofDecimal_neighbour hkept

end FloatFormat

end BitLayout
