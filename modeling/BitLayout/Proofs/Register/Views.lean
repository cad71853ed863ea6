import Mathlib.Data.Int.ModEq
import Mathlib.Order.Bounds.Basic
import BitLayout.Proofs.Bits.TestBit
import BitLayout.Proofs.Numeral.Padded
import BitLayout.Proofs.Register.Retyped

/-!
# The views of a register

A register of `width` bits stores any integer, and its views show what that
integer is modulo `2 ^ width`: the unsigned view by the representative that
is not negative, the signed one by the representative around zero, the dump
by the digits of the former. They are computed in different ways, by
dropping bits, by comparing with the sign bit, by counting digits and by
padding them, and they agree (`Register.Denotes`). So any of them tells the
others (`denotes_views`).
-/

namespace BitLayout

namespace Bits

theorem extract_modEq (v : Int) (width : Nat) : extract v 0 width ≡ v [ZMOD 2 ^ width] := by
  rw [extract_eq, Int.pow_zero, Int.ediv_one]
  exact Int.mod_modEq v _

theorem toSigned_modEq (u : Int) (width : Nat) : toSigned u width ≡ u [ZMOD 2 ^ width] :=
  (extract_modEq (toSigned u width) width).symm.trans
    (extract_toSigned u width ▸ extract_modEq u width)

/-- The upper half of the unsigned numbers stands for the negative ones. -/
theorem toSigned_eq {width : Nat} (h : 1 ≤ width) (u : Int) :
    toSigned u width = if u < 2 ^ (width - 1) then u else u - 2 ^ width := by
  have hpred : ((width : Int) - 1).toNat = width - 1 := by omega
  rw [toSigned, if_neg (by omega), hpred, Int.toNat_natCast]
  simp only [isBelow_iff, weight_eq]

theorem toSigned_bounds {width : Nat} (h : 1 ≤ width) {u : Int} (hnonneg : 0 ≤ u)
    (hlt : u < 2 ^ width) :
    -2 ^ (width - 1) ≤ toSigned u width ∧ toSigned u width < 2 ^ (width - 1) := by
  have hhalf : (2 : Int) ^ width = 2 ^ (width - 1) + 2 ^ (width - 1) := by
    rw [← Int.two_mul, ← pow_succ', Nat.sub_add_cancel h]
  rw [toSigned_eq h]
  split
  · omega
  · omega

end Bits

namespace Register

/-! ## The least width -/

theorem lt_two_pow_iff (n count : Nat) : n < 2 ^ count ↔ bitLength n ≤ count := by
  rw [bitLength]
  split
  · next h => simp [h]
  · next h => exact (Nat.log2_lt h).symm

/-- The width that is asked for is the least one, but not zero. -/
theorem isLeast_bitLength (n : Nat) :
    IsLeast {count : Nat | 1 ≤ count ∧ n < 2 ^ count} (max (bitLength n) 1) := by
  refine ⟨⟨Nat.le_max_right _ 1, ?_⟩, ?_⟩
  · exact (lt_two_pow_iff n _).mpr (Nat.le_max_left _ 1)
  · rintro count ⟨hpos, hlt⟩
    exact Nat.max_le.mpr ⟨(lt_two_pow_iff n count).mp hlt, hpos⟩

/-! ## The dump -/

/-- A dump has the digits of the unsigned view, one for each bit. -/
theorem dump_eq {width : Nat} (h : 1 ≤ width) {raw : Int} {u : Nat}
    (hu : Bits.extract raw 0 width = u) :
    (Register.mk width raw).dump = Numeral.places .bin width u := by
  have hlt : u < 2 ^ width := by
    have := Bits.extract_lt raw 0 width
    rw [hu] at this
    exact_mod_cast this
  show (if width = 0 then [] else Numeral.padded .bin width (Bits.extract raw 0 width)) = _
  rw [if_neg (by omega), hu, Numeral.padded, if_neg (by omega), Int.natAbs_natCast]
  exact Numeral.leftpad_digits .bin hlt h

/-- The first digit is the one of the highest bit. -/
theorem getElem?_dump {width : Nat} (h : 1 ≤ width) (raw : Int) {k : Nat} (hk : k < width) :
    (Register.mk width raw).dump[k]? =
      some (if raw.testBit (width - 1 - k) then '1' else '0') := by
  obtain ⟨u, hu⟩ := Int.eq_ofNat_of_zero_le (Bits.extract_nonneg raw 0 width)
  have hbit := Bits.testBit_extract raw 0 width (width - 1 - k)
  rw [hu, Nat.zero_add, decide_eq_true (by omega), Bool.true_and] at hbit
  have hdigit : u.testBit (width - 1 - k) = raw.testBit (width - 1 - k) := hbit
  rw [dump_eq h hu, Numeral.getElem?_places .bin hk, ← hdigit, Nat.testBit_eq_decide_div_mod_eq]
  show some (Nat.digitChar (u / 2 ^ (width - 1 - k) % 2)) = _
  rcases Nat.mod_two_eq_zero_or_one (u / 2 ^ (width - 1 - k)) with hzero | hone
  · rw [hzero]
    rfl
  · rw [hone]
    rfl

/-! ## All views -/

/-- What the views of a register of `width` bits are to the integer that it stores. -/
structure Denotes (width : Nat) (raw unsigned signed : Int) (minWidth : Nat) : Prop where
  unsigned_eq : (Register.mk width raw).unsigned? = .ok unsigned
  unsigned_mem : 0 ≤ unsigned ∧ unsigned < 2 ^ width
  unsigned_modEq : unsigned ≡ raw [ZMOD 2 ^ width]
  signed_eq : (Register.mk width raw).signed? = .ok signed
  signed_mem : -2 ^ (width - 1) ≤ signed ∧ signed < 2 ^ (width - 1)
  signed_modEq : signed ≡ raw [ZMOD 2 ^ width]
  minWidth_eq : (Register.mk width raw).minWidth? = .ok (minWidth : Int)
  minWidth_least : IsLeast {n : Nat | 1 ≤ n ∧ unsigned < 2 ^ n} minWidth
  minWidth_le : minWidth ≤ width
  /-- Looked at together they are the same, with the count of all unsigned numbers. -/
  views_eq : (Register.mk width raw).views? = .ok ⟨2 ^ width, unsigned, signed, minWidth⟩
  length_dump : (Register.mk width raw).dump.length = width
  positional_dump : Numeral.Positional .bin (Register.mk width raw).dump unsigned.toNat
  dump_bits : ∀ k < width,
    (Register.mk width raw).dump[k]? = some (if raw.testBit (width - 1 - k) then '1' else '0')

theorem exists_denotes {width : Nat} (h : 1 ≤ width) (raw : Int) :
    ∃ minWidth, Denotes width raw (Bits.extract raw 0 width)
      (Bits.toSigned (Bits.extract raw 0 width) width) minWidth := by
  have hnonneg := Bits.extract_nonneg raw 0 width
  have hlt := Bits.extract_lt raw 0 width
  have hmod := Bits.extract_modEq raw width
  have hsigned := Bits.toSigned_bounds h hnonneg hlt
  have hunsigned : (Register.mk width raw).unsigned? = .ok (Bits.extract raw 0 width) := rfl
  obtain ⟨u, hu⟩ := Int.eq_ofNat_of_zero_le hnonneg
  have hdump := dump_eq h hu
  have hlt' : u < 2 ^ width := by
    rw [hu] at hlt
    exact_mod_cast hlt
  have hleast := isLeast_bitLength u
  have hminWidth : (Register.mk width raw).minWidth? = .ok ((max (bitLength u) 1 : Nat) : Int) := by
    rw [minWidth?, hunsigned, hu]
    show Except.ok (max (bitLength (Int.natAbs u) : Int) 1) = _
    rw [Int.natAbs_natCast, Nat.cast_max, Nat.cast_one]
  refine ⟨max (bitLength u) 1, hunsigned, ⟨hnonneg, hlt⟩, hmod, rfl, hsigned,
    (Bits.toSigned_modEq _ width).trans hmod, hminWidth, ?_, hleast.2 ⟨h, hlt'⟩, ?_, ?_, ?_,
    fun k hk => getElem?_dump h raw hk⟩
  · rw [hu]
    exact_mod_cast hleast
  · rw [views?, hminWidth]
    show Except.ok (Views.mk (Bits.weight width) _ _ _) = _
    rw [Bits.weight_eq]
  · rw [hdump, Numeral.length_places]
  · rw [hdump, hu, Int.toNat_natCast]
    exact Numeral.positional_places .bin h hlt'

/-- **The views of a register denote its low bits**, and each of them tells the others. -/
theorem denotes_views {width : Nat} (h : 1 ≤ width) (raw other : Int) :
    ∃ unsigned signed minWidth unsigned' signed' minWidth',
      Denotes width raw unsigned signed minWidth ∧
      Denotes width other unsigned' signed' minWidth' ∧
      ((Register.mk width raw).dump = (Register.mk width other).dump ↔ unsigned = unsigned') ∧
      (unsigned = unsigned' ↔ signed = signed') := by
  obtain ⟨minWidth, hraw⟩ := exists_denotes h raw
  obtain ⟨minWidth', hother⟩ := exists_denotes h other
  refine ⟨_, _, minWidth, _, _, minWidth', hraw, hother, ⟨fun heq => ?_, fun heq => ?_⟩,
    fun heq => ?_, fun heq => ?_⟩
  · have hvalue := Numeral.ofDigits?_eq_some_iff.mpr hraw.positional_dump
    rw [heq, Numeral.ofDigits?_eq_some_iff.mpr hother.positional_dump] at hvalue
    have hnat := Option.some.inj hvalue
    rwa [← Int.ofNat_inj, Int.toNat_of_nonneg hother.unsigned_mem.1,
      Int.toNat_of_nonneg hraw.unsigned_mem.1, eq_comm] at hnat
  · obtain ⟨u, hu⟩ := Int.eq_ofNat_of_zero_le hraw.unsigned_mem.1
    rw [dump_eq h hu, dump_eq h (heq.symm.trans hu)]
  · rw [heq]
  · have hlow := congrArg (fun signed => Bits.extract signed 0 width) heq
    rwa [Bits.extract_toSigned, Bits.extract_toSigned, Bits.extract_extract,
      Bits.extract_extract] at hlow

/-- Minus three is looked at through three bits, and thirteen looks the same. -/
theorem denotes_views_threeBits :
    1 ≤ 3 ∧ Denotes 3 (-3) 5 (-3) 3 ∧ Denotes 3 13 5 (-3) 3 ∧
      (Register.mk 3 (-3)).dump = (Register.mk 3 13).dump := by
  have hwidth : 1 ≤ 3 := by decide
  obtain ⟨u, s, n, u', s', n', h, h', hdump, -⟩ := denotes_views hwidth (-3) 13
  have hviews : ∀ raw ∈ [-3, 13], (Register.mk 3 raw).unsigned? = .ok 5 ∧
      (Register.mk 3 raw).signed? = .ok (-3) ∧ (Register.mk 3 raw).minWidth? = .ok (3 : Nat) := by
    decide
  obtain ⟨hunsigned, hsigned, hminWidth⟩ := hviews (-3) (by decide)
  obtain ⟨hunsigned', hsigned', hminWidth'⟩ := hviews 13 (by decide)
  obtain rfl := Except.ok.inj (hunsigned.symm.trans h.unsigned_eq)
  obtain rfl := Except.ok.inj (hunsigned'.symm.trans h'.unsigned_eq)
  obtain rfl := Except.ok.inj (hsigned.symm.trans h.signed_eq)
  obtain rfl := Except.ok.inj (hsigned'.symm.trans h'.signed_eq)
  obtain rfl := Int.ofNat_inj.mp (Except.ok.inj (hminWidth.symm.trans h.minWidth_eq))
  obtain rfl := Int.ofNat_inj.mp (Except.ok.inj (hminWidth'.symm.trans h'.minWidth_eq))
  exact ⟨hwidth, h, h', hdump.mpr rfl⟩

end Register

end BitLayout
