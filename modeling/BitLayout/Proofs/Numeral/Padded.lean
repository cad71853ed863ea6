import BitLayout.Proofs.Numeral.Grammar

/-!
# Digits in a given number of places

A number that fits into some places is padded to exactly these
(`leftpad_digits`), and then each digit stands where it counts for its own
power of the base (`getElem?_places`), a zero in front like any other. Read
as a numeral, they are the number again (`positional_places`).
-/

namespace BitLayout

namespace Numeral

/-- The digits of a number in so many places; what does not fit is left out at the front. -/
def places (radix : Radix) : Nat → Nat → Text
  | 0, _ => []
  | count + 1, n => places radix count (n / radix.base) ++ [Nat.digitChar (n % radix.base)]

@[simp] theorem length_places (radix : Radix) (count n : Nat) :
    (places radix count n).length = count := by
  induction count generalizing n with
  | zero => rfl
  | succ count ih => rw [places, List.length_append, ih, List.length_singleton]

theorem places_zero (radix : Radix) (count : Nat) :
    places radix count 0 = List.replicate count '0' := by
  induction count with
  | zero => rfl
  | succ count ih => rw [places, Nat.zero_div, Nat.zero_mod, ih, List.replicate_succ']; rfl

theorem leftpad_concat (count : Nat) (front : Text) (c pad : Char) :
    (front ++ [c]).leftpad (count + 1) pad = front.leftpad count pad ++ [c] := by
  simp only [List.leftpad, List.length_append, List.length_singleton, Nat.add_sub_add_right,
    List.append_assoc]

/-- **Padding a number that fits** gives it exactly the places. -/
theorem leftpad_digits (radix : Radix) {count n : Nat} (h : n < radix.base ^ count)
    (hcount : 0 < count) : (digits radix n).leftpad count '0' = places radix count n := by
  have hbase := radix.one_lt_base
  induction count generalizing n with
  | zero => cases hcount
  | succ count ih =>
    rw [places]
    rcases Nat.lt_or_ge n radix.base with hlt | hge
    · rw [digits_of_lt hlt, Nat.div_eq_of_lt hlt, Nat.mod_eq_of_lt hlt, places_zero]
      simp [List.leftpad]
    · have hfront : n / radix.base < radix.base ^ count :=
        Nat.div_lt_of_lt_mul (by rwa [← Nat.pow_succ'])
      have hpos : 0 < count := by
        refine Nat.pos_of_ne_zero ?_
        rintro rfl
        rw [Nat.zero_add, Nat.pow_one] at h
        omega
      rw [digits_of_le hge, leftpad_concat, ih hfront hpos]

/-- Each digit has the power of the base that its place counts for. -/
theorem getElem?_places (radix : Radix) {count k : Nat} (h : k < count) (n : Nat) :
    (places radix count n)[k]? =
      some (Nat.digitChar (n / radix.base ^ (count - 1 - k) % radix.base)) := by
  induction count generalizing n with
  | zero => cases h
  | succ count ih =>
    rw [places, Nat.add_sub_cancel]
    rcases Nat.lt_or_eq_of_le (Nat.le_of_lt_succ h) with hlt | rfl
    · have hpower : (count - 1 - k).succ = count - k := by omega
      rw [List.getElem?_append_left (by rwa [length_places]), ih hlt, Nat.div_div_eq_div_mul,
        ← Nat.pow_succ', hpower]
    · rw [List.getElem?_append_right (by rw [length_places]), length_places, Nat.sub_self,
        Nat.pow_zero, Nat.div_one, List.getElem?_cons_zero]

/-- The places are read as what fits into them. -/
theorem ofDigits_places (radix : Radix) (count n : Nat) :
    ofDigits radix (places radix count n) = n % radix.base ^ count := by
  have hbase := radix.one_lt_base
  induction count generalizing n with
  | zero => rw [Nat.pow_zero, Nat.mod_one]; rfl
  | succ count ih =>
    have hlt : n % radix.base < 16 :=
      Nat.lt_of_lt_of_le (Nat.mod_lt n (by omega)) radix.base_le
    rw [places, ofDigits_append_digit radix _ hlt, ih, Nat.pow_succ', Nat.mod_mul, Nat.add_comm]

/-- Padded digits are a numeral of the number. -/
theorem positional_places (radix : Radix) {count n : Nat} (hcount : 0 < count)
    (h : n < radix.base ^ count) : Positional radix (places radix count n) n := by
  have hzero : isDigitOf radix '0' = true := by cases radix <;> rfl
  have hdigits : (places radix count n).all (isDigitOf radix) = true := by
    rw [← leftpad_digits radix h hcount, List.leftpad, List.all_append, all_digits,
      Bool.and_true, List.all_replicate, hzero, ite_self]
  have hne : places radix count n ≠ [] := by
    intro hnil
    have hlength := congrArg List.length hnil
    rw [length_places, List.length_nil] at hlength
    omega
  rw [← ofDigits?_eq_some_iff, ofDigits?, if_pos ⟨hne, hdigits⟩, ofDigits_places]
  exact congrArg some (Nat.mod_eq_of_lt h)

end Numeral

end BitLayout
