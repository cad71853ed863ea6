import Mathlib.Tactic.LinearCombination
import Mathlib.Tactic.Ring
import BitLayout.Bits

/-!
# Windows of a row of bits

Reading and writing `width` bits from position `index` on, for an integer
of either sign. A write splits the integer in three: what lies above the
window, the window, and what lies below it (`insert_eq`). Everything else
follows from that one equation: the window reads back what was written
(`extract_insert`), and a window that lies above or below reads what it
read before (`extract_insert_above`, `extract_insert_below`).

A single bit is a window of width one, so the same holds of bits.
-/

namespace BitLayout

namespace Bits

@[simp] theorem weight_eq (j : Nat) : (weight j : Int) = 2 ^ j := by
  simp [weight]

theorem extract_eq (v : Int) (index width : Nat) :
    extract v index width = v / 2 ^ index % 2 ^ width := by
  rw [extract, lowBits_eq, Int.shiftRight_eq_div_pow, weight_eq, Int.natCast_pow]
  rfl

theorem two_pow_pos (j : Nat) : (0 : Int) < 2 ^ j :=
  Int.pow_pos (by decide)

/-! ## Reading -/

theorem extract_nonneg (v : Int) (index width : Nat) : 0 ≤ extract v index width := by
  rw [extract_eq]
  exact Int.emod_nonneg _ (Int.ne_of_gt (two_pow_pos width))

theorem extract_lt (v : Int) (index width : Nat) : extract v index width < 2 ^ width := by
  rw [extract_eq]
  exact Int.emod_lt_of_pos _ (two_pow_pos width)

/-- Adjacent windows read together: the upper one counts for the bits
below it. -/
theorem extract_add (v : Int) (index low high : Nat) :
    extract v index (low + high) =
      extract v (index + low) high * 2 ^ low + extract v index low := by
  rw [extract_eq, extract_eq, extract_eq, Int.pow_add (m := index),
    ← Int.ediv_ediv_of_nonneg (Int.le_of_lt (two_pow_pos index))]
  generalize v / 2 ^ index = u
  have hlow := two_pow_pos low
  have hhigh := two_pow_pos high
  have hmod := Int.emod_nonneg u (Int.ne_of_gt hlow)
  have hmod' := Int.emod_lt_of_pos u hlow
  have hwin := Int.emod_nonneg (u / 2 ^ low) (Int.ne_of_gt hhigh)
  have hwin' : u / 2 ^ low % 2 ^ high + 1 ≤ 2 ^ high :=
    Int.emod_lt_of_pos (u / 2 ^ low) hhigh
  refine ((Int.ediv_emod_unique (q := u / 2 ^ low / 2 ^ high) (two_pow_pos (low + high))).mpr
    ⟨?_, ?_, ?_⟩).2
  · have hq := Int.mul_ediv_add_emod (u / 2 ^ low) (2 ^ high)
    have hu := Int.mul_ediv_add_emod u (2 ^ low)
    calc u / 2 ^ low % 2 ^ high * 2 ^ low + u % 2 ^ low
          + 2 ^ (low + high) * (u / 2 ^ low / 2 ^ high)
        = 2 ^ low * (2 ^ high * (u / 2 ^ low / 2 ^ high) + u / 2 ^ low % 2 ^ high)
          + u % 2 ^ low := by ring
      _ = u := by rw [hq, hu]
  · have := Int.mul_nonneg hwin (Int.le_of_lt hlow)
    omega
  · have := Int.mul_le_mul_of_nonneg_right hwin' (Int.le_of_lt hlow)
    rw [Int.add_mul, Int.one_mul, ← Int.pow_add, Nat.add_comm high] at this
    omega

/-- A window is read alike from two integers if and only if both its parts
are. -/
theorem extract_add_eq_iff {v u : Int} {index low high : Nat} :
    extract v index (low + high) = extract u index (low + high) ↔
      extract v (index + low) high = extract u (index + low) high ∧
        extract v index low = extract u index low := by
  constructor
  · intro h
    rw [extract_add, extract_add] at h
    have hparts : ∀ t : Int, (extract t (index + low) high * 2 ^ low + extract t index low)
        / 2 ^ low = extract t (index + low) high ∧
        (extract t (index + low) high * 2 ^ low + extract t index low) % 2 ^ low =
          extract t index low := fun t =>
      (Int.ediv_emod_unique (two_pow_pos low)).mpr
        ⟨by ring, extract_nonneg t index low, extract_lt t index low⟩
    exact ⟨by rw [← (hparts v).1, h, (hparts u).1], by rw [← (hparts v).2, h, (hparts u).2]⟩
  · rintro ⟨hhigh, hlow⟩
    rw [extract_add, extract_add, hhigh, hlow]

/-- A window below bit `n` sees nothing of what lies from there on. -/
theorem extract_of_low {v u : Int} {n index width : Nat} (h : extract v 0 n = extract u 0 n)
    (hle : index + width ≤ n) : extract v index width = extract u index width := by
  obtain ⟨rest, rfl⟩ := Nat.exists_eq_add_of_le hle
  rw [Nat.add_assoc] at h
  have hfrom := (extract_add_eq_iff.mp h).1
  rw [Nat.zero_add] at hfrom
  exact (extract_add_eq_iff.mp hfrom).2

/-- A window from bit `n` on sees nothing of what lies below. -/
theorem extract_of_high {v u : Int} {n index : Nat} (h : v / 2 ^ n = u / 2 ^ n)
    (hle : n ≤ index) (width : Nat) : extract v index width = extract u index width := by
  obtain ⟨rest, rfl⟩ := Nat.exists_eq_add_of_le hle
  have hnonneg := Int.le_of_lt (two_pow_pos n)
  rw [extract_eq, extract_eq, Int.pow_add, ← Int.ediv_ediv_of_nonneg hnonneg,
    ← Int.ediv_ediv_of_nonneg hnonneg, h]

/-- A window that lies within another one. -/
theorem extract_within (v : Int) (index : Nat) {low count width : Nat} (h : low + count ≤ width) :
    extract (extract v index width) low count = extract v (index + low) count := by
  have hwhole : extract (extract v index width) 0 width = extract (v / 2 ^ index) 0 width := by
    simp only [extract_eq, Int.pow_zero, Int.ediv_one, Int.emod_emod]
  rw [extract_of_low hwhole h, extract_eq, extract_eq, Int.pow_add,
    Int.ediv_ediv_of_nonneg (Int.le_of_lt (two_pow_pos index))]

theorem bit_eq_extract (v : Int) (j : Nat) : bit v j = (extract v j 1 == 1) := by
  rw [bit, extract_eq, Int.shiftRight_eq_div_pow, Int.natCast_pow]
  rfl

/-! ## Writing -/

theorem insert_eq (v : Int) (index width : Nat) (x : Int) :
    insert v index width x =
      x % 2 ^ width * 2 ^ index + v % 2 ^ index
        + 2 ^ (index + width) * (v / 2 ^ (index + width)) := by
  have hsplit := extract_add v 0 index width
  rw [Nat.zero_add, extract_eq v 0, extract_eq v 0, Int.pow_zero, Int.ediv_one] at hsplit
  have hwhole := Int.mul_ediv_add_emod v (2 ^ (index + width))
  rw [insert, moveUp_eq, lowBits_eq, weight_eq, weight_eq]
  linear_combination hsplit - hwhole

/-- A write leaves what lies above the window, and below the top of the
window leaves the written part over what was below it. -/
theorem insert_parts (v : Int) (index width : Nat) (x : Int) :
    insert v index width x / 2 ^ (index + width) = v / 2 ^ (index + width) ∧
      insert v index width x % 2 ^ (index + width) =
        x % 2 ^ width * 2 ^ index + v % 2 ^ index := by
  have hindex := two_pow_pos index
  have hwidth := two_pow_pos width
  have hlow := Int.emod_nonneg v (Int.ne_of_gt hindex)
  have hlow' := Int.emod_lt_of_pos v hindex
  have hnew := Int.emod_nonneg x (Int.ne_of_gt hwidth)
  have hnew' : x % 2 ^ width + 1 ≤ 2 ^ width := Int.emod_lt_of_pos x hwidth
  refine (Int.ediv_emod_unique (two_pow_pos (index + width))).mpr
    ⟨(insert_eq v index width x).symm, ?_, ?_⟩
  · have := Int.mul_nonneg hnew (Int.le_of_lt hindex)
    omega
  · have := Int.mul_le_mul_of_nonneg_right hnew' (Int.le_of_lt hindex)
    rw [Int.add_mul, Int.one_mul, ← Int.pow_add, Nat.add_comm width] at this
    omega

theorem extract_insert (v : Int) (index width : Nat) (x : Int) :
    extract (insert v index width x) index width = x % 2 ^ width := by
  have hmod := (insert_parts v index width x).2
  have hsplit := extract_add (insert v index width x) 0 index width
  rw [Nat.zero_add, extract_eq _ 0, Int.pow_zero, Int.ediv_one, hmod] at hsplit
  have hdiv : ∀ a b : Int, 0 ≤ b → b < 2 ^ index → (a * 2 ^ index + b) / 2 ^ index = a :=
    fun a b hnonneg hlt =>
      ((Int.ediv_emod_unique (two_pow_pos index)).mpr ⟨by ring, hnonneg, hlt⟩).1
  have hleft := hdiv (x % 2 ^ width) (v % 2 ^ index)
    (Int.emod_nonneg v (Int.ne_of_gt (two_pow_pos index)))
    (Int.emod_lt_of_pos v (two_pow_pos index))
  rw [hsplit] at hleft
  rw [← hleft]
  exact (hdiv _ _ (extract_nonneg _ 0 index) (extract_lt _ 0 index)).symm

theorem extract_insert_above (v : Int) {index width other : Nat} (h : index + width ≤ other)
    (x : Int) (count : Nat) :
    extract (insert v index width x) other count = extract v other count :=
  extract_of_high (insert_parts v index width x).1 h count

theorem extract_insert_below (v : Int) {index other count : Nat} (h : other + count ≤ index)
    (width : Nat) (x : Int) :
    extract (insert v index width x) other count = extract v other count := by
  refine extract_of_low ?_ h
  have hmod := (insert_parts v index width x).2
  rw [extract_eq, extract_eq, Int.pow_zero, Int.ediv_one, Int.ediv_one,
    ← Int.emod_emod_of_dvd (insert v index width x)
      (pow_dvd_pow (2 : Int) (Nat.le_add_right index width)),
    hmod, Int.add_comm, Int.add_mul_emod_self_right, Int.emod_emod]

theorem bit_insert_of_le (v : Int) {index width j : Nat} (h : index + width ≤ j) (x : Int) :
    bit (insert v index width x) j = bit v j := by
  rw [bit_eq_extract, bit_eq_extract, extract_insert_above v h]

end Bits

end BitLayout
