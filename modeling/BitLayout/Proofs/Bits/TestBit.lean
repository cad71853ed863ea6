import Mathlib.Data.Int.Bitwise
import BitLayout.Proofs.Bits.Window

/-!
# Windows bit by bit

What a read, a write and a flip do to every single bit of an integer, where
the bits are those of `Int.testBit`: of a negative integer they are the
complements of the bits of a natural number, without end.

A bit is a window of width one, so all of this is read off the windows. A
read is a window within a window (`extract_within`), and has nothing above
its width. A write leaves the windows above and below its own, and its own
window is the one of the integer that was written. A flip is a write of one
bit, the one that is not there (`toggle_eq_insert`).
-/

namespace BitLayout

namespace Bits

theorem bit_eq_testBit (v : Int) (j : Nat) : bit v j = v.testBit j := by
  cases v with
  | ofNat n =>
    show (((n >>> j : Nat) : Int) % 2 == 1) = n.testBit j
    rw [Nat.testBit_eq_decide_div_mod_eq, Nat.shiftRight_eq_div_pow, Bool.eq_iff_iff, beq_iff_eq,
      decide_eq_true_iff]
    omega
  | negSucc n =>
    show (Int.negSucc (n >>> j) % 2 == 1) = !n.testBit j
    rw [Nat.testBit_eq_decide_div_mod_eq, Nat.shiftRight_eq_div_pow, Bool.eq_iff_iff, beq_iff_eq,
      Bool.not_eq_true', decide_eq_false_iff_not, Int.negSucc_eq]
    omega

theorem testBit_eq_extract (v : Int) (j : Nat) : v.testBit j = (extract v j 1 == 1) := by
  rw [← bit_eq_testBit, bit_eq_extract]

/-- Bits that are read alike are the same. -/
theorem testBit_congr {v u : Int} {j k : Nat} (h : extract v j 1 = extract u k 1) :
    v.testBit j = u.testBit k := by
  rw [testBit_eq_extract, testBit_eq_extract, h]

/-! ## Reading -/

theorem testBit_extract (v : Int) (index width j : Nat) :
    (extract v index width).testBit j = (decide (j < width) && v.testBit (index + j)) := by
  by_cases hj : j < width
  · rw [decide_eq_true hj, Bool.true_and]
    exact testBit_congr (extract_within v index hj)
  · have hlt : extract v index width < 2 ^ j :=
      Int.lt_of_lt_of_le (extract_lt v index width)
        (pow_le_pow_right₀ (by decide) (Nat.le_of_not_lt hj))
    rw [decide_eq_false hj, Bool.false_and, testBit_eq_extract, extract_eq _ j,
      Int.ediv_eq_zero_of_lt (extract_nonneg v index width) hlt]
    rfl

/-- The low bits of an integer are the bits of the number in them. -/
theorem testBit_emod (v : Int) {width j : Nat} (h : j < width) :
    (v % 2 ^ width).testBit j = v.testBit j := by
  have hbit := testBit_extract v 0 width j
  rwa [extract_eq, Int.pow_zero, Int.ediv_one, decide_eq_true h, Bool.true_and,
    Nat.zero_add] at hbit

/-! ## Writing -/

theorem testBit_insert (v : Int) (index width : Nat) (x : Int) (j : Nat) :
    (insert v index width x).testBit j =
      if index ≤ j ∧ j < index + width then x.testBit (j - index) else v.testBit j := by
  split
  · next h =>
    obtain ⟨place, rfl⟩ := Nat.exists_eq_add_of_le h.1
    have hplace : place < width := by omega
    have hread := testBit_extract (insert v index width x) index width place
    rw [extract_insert, testBit_emod x hplace, decide_eq_true hplace, Bool.true_and] at hread
    rw [Nat.add_sub_cancel_left, hread]
  · next h =>
    rcases Nat.lt_or_ge j index with hbelow | habove
    · exact testBit_congr (extract_insert_below v hbelow width x)
    · exact testBit_congr (extract_insert_above v (by omega) x 1)

/-! ## Flipping -/

theorem toggle_eq_insert (v : Int) (index : Nat) :
    toggle v index = insert v index 1 (if v.testBit index then 0 else 1) := by
  have hbit := extract_lt v index 1
  have hnonneg := extract_nonneg v index 1
  rw [toggle, insert, bit_eq_testBit, moveUp_eq, lowBits_eq, testBit_eq_extract]
  by_cases h : extract v index 1 = 1
  · rw [h]
    simp [weight, Int.sub_eq_add_neg]
  · obtain h : extract v index 1 = 0 := by omega
    rw [h]
    simp [weight]

theorem testBit_toggle_ne_iff (v : Int) (index j : Nat) :
    (toggle v index).testBit j ≠ v.testBit j ↔ j = index := by
  rw [toggle_eq_insert, testBit_insert]
  by_cases hj : j = index
  · subst hj
    rw [if_pos ⟨Nat.le_refl _, Nat.lt_succ_self _⟩, Nat.sub_self]
    cases v.testBit j <;> simp <;> decide
  · rw [if_neg (by omega)]
    simp [hj]

end Bits

end BitLayout
