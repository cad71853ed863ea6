/-!
# Bits of an integer

An integer of either sign is an infinite row of bits in two's complement: bit `j` of `v` is the
parity of `v / 2 ^ j`, rounded down. Fields of such a row are read, written and flipped here by
arithmetic, for positions that are natural numbers. A second layer takes any integers as
positions and refuses the negative ones.
-/

namespace BitLayout

namespace Bits

/-- What bit `j` counts for: two to the power `j`. -/
def weight (j : Nat) : Nat :=
  Nat.pow 2 j

def bit (v : Int) (j : Nat) : Bool :=
  v >>> j % 2 == 1

/-! ## Far positions

The weight of a far position is a number that need not fit any memory, while the answer may be a
small one. The three operations below write out a weight only where the answer needs it. -/

def isBelow (v : Int) (j : Nat) : Bool :=
  match v with
  | .ofNat n => n == 0 || n.log2 < j
  | .negSucc _ => true

/-- The number in the low `width` bits. -/
def lowBits (v : Int) (width : Nat) : Int :=
  if 0 ≤ v ∧ isBelow v width then v else v % weight width

/-- The number moved up by `index` bits. -/
def moveUp (v : Int) (index : Nat) : Int :=
  if v = 0 then 0 else v * weight index

theorem isBelow_iff {v : Int} {j : Nat} : isBelow v j = true ↔ v < weight j := by
  cases v with
  | negSucc n =>
    have hneg := Int.negSucc_lt_zero n
    have hnonneg := Int.natCast_nonneg (weight j)
    have hlt : Int.negSucc n < (weight j : Int) := by omega
    simp [isBelow, hlt]
  | ofNat n =>
    rw [Int.ofNat_eq_natCast, Int.ofNat_lt]
    by_cases h : n = 0
    · subst h
      exact iff_of_true rfl (Nat.two_pow_pos j)
    · simp only [isBelow, beq_iff_eq, h, Bool.or_eq_true, decide_eq_true_eq, false_or]
      exact Nat.log2_lt h

theorem lowBits_eq (v : Int) (width : Nat) : lowBits v width = v % weight width := by
  rw [lowBits]
  split
  · next h => rw [Int.emod_eq_of_lt h.1 (isBelow_iff.1 h.2)]
  · rfl

theorem moveUp_eq (v : Int) (index : Nat) : moveUp v index = v * weight index := by
  rw [moveUp]
  split
  · next h => rw [h, Int.zero_mul]
  · rfl

/-! ## Fields -/

/-- The number with ones at `width` bits from `index` on, and zeros elsewhere. -/
def mask (index width : Nat) : Int :=
  moveUp (weight width - 1) index

/-- The unsigned number in `width` bits from `index` on. -/
def extract (v : Int) (index width : Nat) : Int :=
  lowBits (v >>> index) width

/-- Writes the low bits of `x` into `width` bits from `index` on, and keeps the rest. -/
def insert (v : Int) (index width : Nat) (x : Int) : Int :=
  v + moveUp (lowBits x width - extract v index width) index

def toggle (v : Int) (index : Nat) : Int :=
  if bit v index then v - weight index else v + weight index

/-- The number that `width` bits mean in two's complement, given as the unsigned number in them.
No bits mean zero. -/
def toSigned (u : Int) (width : Int) : Int :=
  if width ≤ 0 then 0
  else if isBelow u (width - 1).toNat then u
  else u - weight width.toNat

/-! ## Positions that may be negative -/

inductive Fault where
  /-- An index or a width is below zero. -/
  | negativePosition
  deriving Repr, DecidableEq

def position : Int → Except Fault Nat
  | .ofNat n => .ok n
  | .negSucc _ => .error .negativePosition

def mask? (index width : Int) : Except Fault Int := do
  return mask (← position index) (← position width)

def extract? (v index width : Int) : Except Fault Int := do
  return extract v (← position index) (← position width)

def insert? (v index width x : Int) : Except Fault Int := do
  return insert v (← position index) (← position width) x

def toggle? (v index : Int) : Except Fault Int := do
  return toggle v (← position index)

end Bits

end BitLayout
