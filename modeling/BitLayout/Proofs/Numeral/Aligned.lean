import Mathlib.Algebra.Order.Floor.Div
import Mathlib.Data.Nat.Prime.Basic
import BitLayout.Proofs.Numeral.Padded

/-!
# Padded numerals line up

In a radix whose base is a power of two each digit stands for as many bits,
and the digits that a register of a given width is padded to are the least
number of them that has room for all its bits. So every number that fits
into the register is written in exactly these places (`formatPadded_eq`),
in front of which the mark stands as ever, and it is read back whatever
radix a reader takes an unmarked numeral to be in (`read_of_positional`).

Texts of one length are ordered by their first difference, and so are
numbers by their highest digit that differs. Hence such texts sort like
their values (`places_lt_places_iff`). The induction is on the number of
places and takes the last digit off, as `places` does; what stands before it
decides first (`concat_lt_concat_iff`).

There is one limit, and it is far away: no text has more digits than
`mostDigits` (`aligned_tooWide`).
-/

namespace BitLayout

namespace Numeral

/-! ## Bits and digits -/

/-- Decimal is the one radix whose digits do not take a whole number of bits. -/
theorem bits_of_base {radix : Radix} {bits : Nat} (h : radix.base = 2 ^ bits) :
    (radix, bits) ∈ [(Radix.bin, 1), (.oct, 3), (.hex, 4)] := by
  have hbits : ∀ known, radix.base = 2 ^ known → bits = known := fun known hknown =>
    Nat.pow_right_injective (Nat.le_refl 2) (h.symm.trans hknown)
  cases radix with
  | bin => simp [hbits 1 rfl]
  | oct => simp [hbits 3 rfl]
  | hex => simp [hbits 4 rfl]
  | dec =>
    have hdvd : 5 ∣ 2 ^ bits := h ▸ (by decide : 5 ∣ 10)
    exact absurd (Nat.prime_five.dvd_of_dvd_pow hdvd) (by decide)

theorem ne_dec_of_base {radix : Radix} {bits : Nat} (h : radix.base = 2 ^ bits) :
    radix ≠ .dec := by
  rintro rfl
  have := bits_of_base h
  simp at this

theorem digitCount_eq {radix : Radix} {bits : Nat} (h : radix.base = 2 ^ bits) (width : Nat) :
    digitCount width radix = (width ⌈/⌉ bits : Nat) := by
  have hcases := bits_of_base h
  simp only [List.mem_cons, Prod.mk.injEq, List.not_mem_nil, or_false] at hcases
  rw [Nat.ceilDiv_eq_add_pred_div]
  rcases hcases with ⟨rfl, rfl⟩ | ⟨rfl, rfl⟩ | ⟨rfl, rfl⟩
  · rw [Nat.add_sub_cancel, Nat.div_one]
    rfl
  · simp [digitCount]
  · simp [digitCount]

theorem bits_pos {radix : Radix} {bits : Nat} (h : radix.base = 2 ^ bits) : 0 < bits := by
  refine Nat.pos_of_ne_zero ?_
  rintro rfl
  exact Nat.ne_of_gt radix.one_lt_base h

/-- The places have room for all numbers of the width. -/
theorem lt_base_pow {radix : Radix} {bits width n : Nat} (h : radix.base = 2 ^ bits)
    (hn : n < 2 ^ width) : n < radix.base ^ (width ⌈/⌉ bits) := by
  have hroom : width ≤ bits * (width ⌈/⌉ bits) := le_smul_ceilDiv (bits_pos h)
  rw [h, ← Nat.pow_mul]
  exact Nat.lt_of_lt_of_le hn (Nat.pow_le_pow_right (by decide) hroom)

theorem count_pos {radix : Radix} {bits width : Nat} (h : radix.base = 2 ^ bits)
    (hwidth : 1 ≤ width) : 0 < width ⌈/⌉ bits := by
  have hroom : width ≤ bits * (width ⌈/⌉ bits) := le_smul_ceilDiv (bits_pos h)
  exact Nat.pos_of_mul_pos_left (Nat.lt_of_lt_of_le hwidth hroom)

/-- **What is written** for a number that fits into the width. -/
theorem formatPadded_eq {radix : Radix} {bits width n : Nat} (h : radix.base = 2 ^ bits)
    (hwidth : 1 ≤ width) (hmost : width ⌈/⌉ bits ≤ mostDigits) (hn : n < 2 ^ width) :
    formatPadded n radix.base width =
      .ok (radix.mark ++ places radix (width ⌈/⌉ bits) n) := by
  have hnonneg : ¬ (n : Int) < 0 := by omega
  rw [formatPadded, Radix.ofBase_base]
  show renderPadded radix width n = _
  rw [renderPadded, digitCount_eq h]
  show (if mostDigits < width ⌈/⌉ bits then Except.error PaddingError.tooWide
    else if Long radix n then Except.error PaddingError.tooLong
    else .ok (radix.mark ++ padded radix (width ⌈/⌉ bits) n)) = _
  rw [if_neg (Nat.not_lt.mpr hmost), if_neg (not_long_of_ne (ne_dec_of_base h) _), padded,
    if_neg hnonneg, Int.natAbs_natCast,
    leftpad_digits radix (lt_base_pow h hn) (count_pos h hwidth)]

/-! ## Reading back -/

theorem DigitOf.visible {radix : Radix} {c : Char} {d : Nat} (h : DigitOf radix c d) :
    Text.isSpace c = false := by
  have hall : ∀ d < 16, Text.isSpace (Nat.digitChar d) = false ∧
      Text.isSpace (Nat.digitChar d).toUpper = false := by
    decide
  obtain ⟨hd, hc⟩ := h
  obtain ⟨hlower, hupper⟩ := hall d (Nat.lt_of_lt_of_le hd radix.base_le)
  rcases hc with rfl | rfl
  · exact hlower
  · exact hupper

/-- Behind a mark, digits are a numeral to every reader. Zeros in front of them make no
difference, not even to the mark of octal, which is one itself. -/
theorem read_of_positional {radix : Radix} {digits : Text} {n : Nat}
    (hvalue : Positional radix digits n) (hradix : radix ≠ .dec) (otherwise : Radix) :
    read otherwise (radix.mark ++ digits) = .ok n := by
  have hvisible : ∀ c ∈ radix.mark ++ digits, Text.isSpace c = false := by
    intro c hc
    rcases List.mem_append.mp hc with hmark | hdigit
    · exact (visible_mark_digits radix 0 c (List.mem_append_left _ hmark)).1
    · obtain ⟨d, hd⟩ := hvalue.exists_digitOf hdigit
      exact hd.visible
  rw [read_iff, Text.trim_of_visible hvisible]
  -- The mark begins with a zero, so this is no decimal numeral, however many digits follow.
  cases radix with
  | bin => exact ⟨.positive (.marked (by decide) hvalue), fun hlong => hlong.2.first rfl⟩
  | oct => exact ⟨.positive (.octal hvalue), fun hlong => hlong.2.first rfl⟩
  | hex => exact ⟨.positive (.marked (by decide) hvalue), fun hlong => hlong.2.first rfl⟩
  | dec => exact absurd rfl hradix

/-! ## Order -/

theorem digitChar_lt_digitChar_iff {d e : Nat} (hd : d < 16) (he : e < 16) :
    Nat.digitChar d < Nat.digitChar e ↔ d < e := by
  have hall : ∀ d < 16, ∀ e < 16, (Nat.digitChar d < Nat.digitChar e ↔ d < e) := by decide
  exact hall d hd e he

/-- Texts of one length: what stands before the last character decides first. -/
theorem concat_lt_concat_iff {front other : Text} (h : front.length = other.length) (c d : Char) :
    front ++ [c] < other ++ [d] ↔ front < other ∨ front = other ∧ c < d := by
  induction front generalizing other with
  | nil =>
    obtain rfl := List.eq_nil_of_length_eq_zero h.symm
    simp [List.cons_lt_cons_iff]
  | cons a front ih =>
    cases other with
    | nil => cases h
    | cons b other =>
      rw [List.cons_append, List.cons_append, List.cons_lt_cons_iff, List.cons_lt_cons_iff,
        ih (Nat.succ.inj h), List.cons.injEq]
      tauto

theorem places_inj {radix : Radix} {count u v : Nat} (hu : u < radix.base ^ count)
    (hv : v < radix.base ^ count) (h : places radix count u = places radix count v) : u = v := by
  have hvalue := congrArg (ofDigits radix) h
  rwa [ofDigits_places, ofDigits_places, Nat.mod_eq_of_lt hu, Nat.mod_eq_of_lt hv] at hvalue

theorem append_lt_append_iff (front text other : Text) :
    front ++ text < front ++ other ↔ text < other := by
  induction front with
  | nil => rfl
  | cons c front ih => simp [ih]

/-- A number is below another if it is so without the last digit, or else by the last digit. -/
theorem lt_iff_div_mod (base u v : Nat) :
    u < v ↔ u / base < v / base ∨ u / base = v / base ∧ u % base < v % base := by
  constructor
  · intro h
    rcases Nat.lt_or_eq_of_le (Nat.div_le_div_right (c := base) (Nat.le_of_lt h)) with hlt | heq
    · exact Or.inl hlt
    · have hu := Nat.div_add_mod u base
      have hv := Nat.div_add_mod v base
      rw [heq] at hu
      exact Or.inr ⟨heq, by omega⟩
  · rintro (hlt | ⟨heq, hlt⟩)
    · exact Nat.lt_of_div_lt_div hlt
    · have hu := Nat.div_add_mod u base
      have hv := Nat.div_add_mod v base
      rw [heq] at hu
      omega

/-- **Places sort like the numbers in them.** -/
theorem places_lt_places_iff (radix : Radix) {count u v : Nat} (hu : u < radix.base ^ count)
    (hv : v < radix.base ^ count) : places radix count u < places radix count v ↔ u < v := by
  have hbase : 0 < radix.base := Nat.lt_trans Nat.zero_lt_one radix.one_lt_base
  induction count generalizing u v with
  | zero =>
    obtain rfl := Nat.lt_one_iff.mp hu
    obtain rfl := Nat.lt_one_iff.mp hv
    simp
  | succ count ih =>
    have hdigit : ∀ n, n % radix.base < 16 := fun n =>
      Nat.lt_of_lt_of_le (Nat.mod_lt n hbase) radix.base_le
    have hfront : ∀ n, n < radix.base ^ (count + 1) → n / radix.base < radix.base ^ count :=
      fun n hn => Nat.div_lt_of_lt_mul (by rwa [← Nat.pow_succ'])
    have hu' := hfront u hu
    have hv' := hfront v hv
    have heq : places radix count (u / radix.base) = places radix count (v / radix.base) ↔
        u / radix.base = v / radix.base :=
      ⟨places_inj hu' hv', congrArg _⟩
    have hlast := digitChar_lt_digitChar_iff (hdigit u) (hdigit v)
    rw [places, places, concat_lt_concat_iff (by simp), lt_iff_div_mod radix.base]
    exact or_congr (ih hu' hv') (and_congr heq hlast)

/-! ## Columns of numbers -/

/-- What padding makes of the numbers that fit into a register of `width` bits, in a radix
whose digits take `bits` bits each. -/
structure Aligned (radix : Radix) (bits width : Nat) : Prop where
  /-- Behind the mark stand as many digits as there are groups of bits, the last one begun. -/
  written : ∀ n : Nat, n < 2 ^ width → ∃ digits,
    formatPadded n radix.base width = .ok (radix.mark ++ digits) ∧
      digits.length = width ⌈/⌉ bits ∧ digits.all (isDigitOf radix) = true
  readBack : ∀ n : Nat, n < 2 ^ width → ∀ text, formatPadded n radix.base width = .ok text →
    ∀ otherwise : Radix, parse text otherwise.base = .ok n
  /-- Texts are compared character by character, and characters by their code points. -/
  sorted : ∀ u v : Nat, u < 2 ^ width → v < 2 ^ width → ∀ text other,
    formatPadded u radix.base width = .ok text → formatPadded v radix.base width = .ok other →
      (u < v ↔ text < other)

/-- **Padded numerals line up**, lose nothing and sort, as long as their digits can be counted. -/
theorem aligned_formatPadded {radix : Radix} {bits width : Nat} (hbase : radix.base = 2 ^ bits)
    (hwidth : 1 ≤ width) (hmost : width ⌈/⌉ bits ≤ mostDigits) : Aligned radix bits width := by
  have hformat : ∀ n : Nat, n < 2 ^ width → formatPadded n radix.base width =
      .ok (radix.mark ++ places radix (width ⌈/⌉ bits) n) :=
    fun n hn => formatPadded_eq hbase hwidth hmost hn
  have hpositional : ∀ n < 2 ^ width, Positional radix (places radix (width ⌈/⌉ bits) n) n :=
    fun n hn => positional_places radix (count_pos hbase hwidth) (lt_base_pow hbase hn)
  refine ⟨?_, ?_, ?_⟩
  · intro n hn
    obtain ⟨-, values, hvalues, -⟩ := hpositional n hn
    exact ⟨_, hformat n hn, length_places _ _ _, all_isDigitOf_iff.mpr ⟨values, hvalues⟩⟩
  · intro n hn text htext otherwise
    obtain rfl := Except.ok.inj ((hformat n hn).symm.trans htext)
    rw [parse_base, read_of_positional (hpositional n hn) (ne_dec_of_base hbase)]
  · intro u v hu hv text other htext hother
    obtain rfl := Except.ok.inj ((hformat u hu).symm.trans htext)
    obtain rfl := Except.ok.inj ((hformat v hv).symm.trans hother)
    rw [append_lt_append_iff,
      places_lt_places_iff radix (lt_base_pow hbase hu) (lt_base_pow hbase hv)]

/-- Eleven bits take three hexadecimal digits. -/
theorem aligned_formatPadded_elevenBits :
    Radix.hex.base = 2 ^ 4 ∧ 1 ≤ 11 ∧ 11 ⌈/⌉ 4 ≤ mostDigits ∧ Aligned .hex 4 11 ∧
      formatPadded 0x2f 16 11 = .ok "0x02f".toList ∧
      formatPadded 0x100 16 11 = .ok "0x100".toList := by
  have hbase : Radix.hex.base = 2 ^ 4 := rfl
  have hwidth : 1 ≤ 11 := by decide
  have hmost : 11 ⌈/⌉ 4 ≤ mostDigits := by decide
  exact ⟨hbase, hwidth, hmost, aligned_formatPadded hbase hwidth hmost, by decide, by decide⟩

theorem not_aligned_of_error {radix : Radix} {bits width : Nat} {e : PaddingError}
    (h : formatPadded 0 radix.base width = .error e) : ¬ Aligned radix bits width := by
  intro haligned
  obtain ⟨digits, hdigits, -⟩ := haligned.written 0 (Nat.two_pow_pos width)
  cases h.symm.trans hdigits

/-- More digits than can be counted are not written, not even zeros. -/
theorem aligned_tooWide :
    formatPadded 0 2 9223372036854775808 = .error .tooWide ∧
      ¬ Aligned .bin 1 9223372036854775808 := by
  have htooWide : formatPadded 0 2 9223372036854775808 = .error .tooWide := by decide
  exact ⟨htooWide, not_aligned_of_error htooWide⟩

end Numeral

end BitLayout
