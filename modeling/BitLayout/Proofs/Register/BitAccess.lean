import BitLayout.Proofs.Bits.TestBit
import BitLayout.Register.Input

/-!
# Access to the bits of a register

Every way of reading, writing and flipping bits, told bit by bit
(`Register.BitByBit`). By position and width, by a range with its bounds in
either order, or by a single index, it is one window of the stored integer
that is meant, and what is done with it is what `Bits.Reads` and
`Bits.Writes` say of its bits, whatever the sign of the integer and however
far above its own bits the window lies.

The two predicates leave no choice: a number is told by its bits.
-/

namespace BitLayout

namespace Bits

/-- The number in a window of an integer: its bits are those of the window, and it has no
others. -/
def Reads (v : Int) (index width : Nat) (n : Int) : Prop :=
  0 ≤ n ∧ n < 2 ^ width ∧ ∀ j, n.testBit j = (decide (j < width) && v.testBit (index + j))

/-- An integer with the low bits of another one in a window, and its own bits elsewhere. -/
def Writes (v : Int) (index width : Nat) (x later : Int) : Prop :=
  ∀ j, later.testBit j =
    if index ≤ j ∧ j < index + width then x.testBit (j - index) else v.testBit j

/-- An integer with one bit changed. -/
def Flips (v : Int) (index : Nat) (later : Int) : Prop :=
  ∀ j, later.testBit j ≠ v.testBit j ↔ j = index

theorem reads_extract (v : Int) (index width : Nat) :
    Reads v index width (extract v index width) :=
  ⟨extract_nonneg v index width, extract_lt v index width, testBit_extract v index width⟩

theorem writes_insert (v : Int) (index width : Nat) (x : Int) :
    Writes v index width x (insert v index width x) :=
  testBit_insert v index width x

theorem flips_toggle (v : Int) (index : Nat) : Flips v index (toggle v index) :=
  testBit_toggle_ne_iff v index

/-- A window of one bit. -/
theorem Reads.eq_bit {v n : Int} {index : Nat} (h : Reads v index 1 n) :
    n = if v.testBit index then 1 else 0 := by
  obtain ⟨hnonneg, hlt, hbits⟩ := h
  have hbit := hbits 0
  rw [decide_eq_true Nat.one_pos, Bool.true_and, Nat.add_zero] at hbit
  rw [← hbit]
  obtain rfl | rfl : n = 0 ∨ n = 1 := by omega
  · rfl
  · rfl

end Bits

namespace Register

open Bits (Reads Writes Flips)

/-! ## One window -/

theorem outcome_write (index width : Nat) (x : Int) (register : Register) :
    (onRaw (Value.write index width x)).outcome register =
      (.ok (Bits.insert register.raw index width x),
        { register with raw := Bits.insert register.raw index width x }) := rfl

theorem outcome_toggle (index : Nat) (register : Register) :
    (onRaw (Value.toggle index)).outcome register =
      (.ok (Bits.toggle register.raw index),
        { register with raw := Bits.toggle register.raw index }) := rfl

theorem outcome_writeAt {key : Key} {index width : Nat} (h : key.span = .ok (index, width))
    (x : Int) (register : Register) :
    (writeAt key x).outcome register =
      (.ok (), { register with raw := Bits.insert register.raw index width x }) := by
  rw [writeAt, Work.outcome_bind, Work.outcome_look, h]
  rfl

theorem get_of_span {key : Key} {index width : Nat} (h : key.span = .ok (index, width))
    (register : Register) : register.get key = .ok (Bits.extract register.raw index width) := by
  rw [get, h]
  rfl

/-- A range is the window from its lower bound through its upper one, in either order. -/
theorem span_range (high low : Nat) :
    (Key.range (high : Int) (low : Int)).span =
        .ok (min high low, max high low - min high low + 1) ∧
      (Key.range (low : Int) (high : Int)).span =
        .ok (min high low, max high low - min high low + 1) := by
  refine ⟨rfl, ?_⟩
  rw [Nat.min_comm, Nat.max_comm]
  rfl

theorem span_bit (index : Nat) :
    (Key.bit index).span = .ok (index, 1) ∧
      (Key.range (index : Int) (index : Int)).span = .ok (index, 1) := by
  refine ⟨rfl, (span_range index index).1.trans ?_⟩
  rw [Nat.min_self, Nat.max_self, Nat.sub_self]

/-! ## All ways of access -/

/-- What is read, written and flipped in a register, told bit by bit. -/
structure BitByBit (register : Register) : Prop where
  read : ∀ index width : Nat, ∃ n,
    Bits.extract? register.raw index width = .ok n ∧
      (onRaw (Value.read index width)).outcome register = (.ok n, register) ∧
      Reads register.raw index width n
  write : ∀ (index width : Nat) (x : Int), ∃ later,
    Bits.insert? register.raw index width x = .ok later ∧
      (onRaw (Value.write index width x)).outcome register =
        (.ok later, { register with raw := later }) ∧
      Writes register.raw index width x later
  toggle : ∀ index : Nat, ∃ later,
    Bits.toggle? register.raw index = .ok later ∧
      (onRaw (Value.toggle index)).outcome register =
        (.ok later, { register with raw := later }) ∧
      Flips register.raw index later
  /-- A range is read from the lower bound through the upper one, in either order. -/
  get_range : ∀ high low : Nat, ∃ n,
    register.get (.range (high : Int) (low : Int)) = .ok n ∧
      register.get (.range (low : Int) (high : Int)) = .ok n ∧
      Reads register.raw (min high low) (max high low - min high low + 1) n
  set_range : ∀ (high low : Nat) (x : Int), ∃ later,
    (writeAt (.range (high : Int) (low : Int)) x).outcome register =
        (.ok (), { register with raw := later }) ∧
      (writeAt (.range (low : Int) (high : Int)) x).outcome register =
        (.ok (), { register with raw := later }) ∧
      Writes register.raw (min high low) (max high low - min high low + 1) x later
  /-- A single bit is the range from itself through itself. -/
  get_bit : ∀ index : Nat,
    register.get (.bit index) = .ok (if register.raw.testBit index then 1 else 0) ∧
      register.get (.bit index) = register.get (.range (index : Int) (index : Int))
  set_bit : ∀ (index : Nat) (x : Int), ∃ later,
    (writeAt (.bit index) x).outcome register = (.ok (), { register with raw := later }) ∧
      (writeAt (.range (index : Int) (index : Int)) x).outcome register =
        (.ok (), { register with raw := later }) ∧
      ∀ j, later.testBit j = if j = index then x.testBit 0 else register.raw.testBit j

/-- **Access to bits is exact**, at every position of every integer. -/
theorem bitByBit_access (register : Register) : BitByBit register where
  read index width := ⟨_, rfl, rfl, Bits.reads_extract _ index width⟩
  write index width x :=
    ⟨_, rfl, outcome_write index width x register, Bits.writes_insert _ index width x⟩
  toggle index := ⟨_, rfl, outcome_toggle index register, Bits.flips_toggle _ index⟩
  get_range high low := by
    obtain ⟨hspan, hspan'⟩ := span_range high low
    exact ⟨_, get_of_span hspan register, get_of_span hspan' register, Bits.reads_extract _ _ _⟩
  set_range high low x := by
    obtain ⟨hspan, hspan'⟩ := span_range high low
    exact ⟨_, outcome_writeAt hspan x register, outcome_writeAt hspan' x register,
      Bits.writes_insert _ _ _ x⟩
  get_bit index := by
    obtain ⟨hspan, hspan'⟩ := span_bit index
    rw [get_of_span hspan, get_of_span hspan', ← (Bits.reads_extract register.raw index 1).eq_bit]
    exact ⟨rfl, rfl⟩
  set_bit index x := by
    obtain ⟨hspan, hspan'⟩ := span_bit index
    refine ⟨_, outcome_writeAt hspan x register, outcome_writeAt hspan' x register, fun j => ?_⟩
    rw [Bits.writes_insert register.raw index 1 x j]
    by_cases hj : j = index
    · rw [if_pos (by omega), if_pos hj, hj, Nat.sub_self]
    · rw [if_neg (by omega), if_neg hj]

end Register

end BitLayout
