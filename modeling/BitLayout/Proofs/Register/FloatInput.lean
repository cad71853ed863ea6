import BitLayout.Proofs.Decimal.Grammar
import BitLayout.Proofs.Float.Narrowed
import BitLayout.Proofs.Register.Readers

/-!
# What a decimal literal is stored as

A register of 64 bits stores the number that is nearest to the literal, a
register of 32 bits the one that is nearest to that number of 64 bits
(`Stored`). Both go to the even one of two numbers that are as near, and to
infinity from half a last place above the largest number on. The sign is a bit
of its own, so that a zero has the sign of its literal.

In 32 bits this is the number nearest to the literal as well, unless the first
rounding led it astray (`FloatFormat.Astray`). `roundsLiterals_tryFloat_astray`
is a literal for which it does: just above the middle of one and the next
number of 32 bits, it is stored as one.
-/

namespace BitLayout

namespace FloatFormat

open Decimal

/-- A code of 64 bits is not changed by the second rounding. -/
theorem convert_self {code : Nat} (h : code ≤ double.infinity) :
    convert double double code = code := by
  rcases Nat.lt_or_eq_of_le h with hlt | rfl
  · exact convert_eq (by decide) hlt hlt (AgreesWith.refl double code)
  · exact if_neg (lt_irrefl _)

theorem readBits?_of_spells {text : Text} {negative : Bool} {q : ℚ}
    (h : Literal.Spells text negative q) (format : FloatFormat) :
    ∃ d : Decimal, d.value = q ∧ format.readBits? text =
      some (format.encode negative (convert double format (double.ofDecimal d))) := by
  obtain ⟨d, hread, hvalue⟩ := Literal.spells_iff.mp h
  refine ⟨d, hvalue, ?_⟩
  rw [readBits?, hread]
  rfl

/-- A text with bits is a number or infinity. -/
theorem spells_of_readBits? {format : FloatFormat} {text : Text} {bits : Nat}
    (h : format.readBits? text = some bits) :
    (∃ negative, Literal.read? text = some (.infinite negative)) ∨
      ∃ negative q, Literal.Spells text negative q := by
  obtain ⟨literal, hread, hbits⟩ := Option.bind_eq_some_iff.mp h
  cases literal with
  | nan => cases hbits
  | infinite negative => exact Or.inl ⟨negative, hread⟩
  | finite negative d => exact Or.inr ⟨negative, d.value, Literal.spells_iff.mpr ⟨d, hread, rfl⟩⟩

end FloatFormat

namespace Register

open Decimal FloatFormat Work

/-- Bits are what a register holds after a literal was read, which is taken. -/
def Holds (register : Register) (text : Text) (bits : Nat) : Prop :=
  (tryFloat text).outcome register = (.ok true, { register with raw := bits })

instance (register : Register) (text : Text) (bits : Nat) : Decidable (register.Holds text bits) :=
  inferInstanceAs (Decidable (_ = _))

/-- What is stored for a literal that has the number `q` behind its sign. -/
structure Stored (register : Register) (text : Text) (negative : Bool) (q : ℚ) : Prop where
  of_width_64 : register.width = 64 → ∃ code,
    register.Holds text (double.encode negative code) ∧ double.Nearest q code
  /-- The number of 32 bits is nearest to the one of 64 bits, of which infinity stays infinity. It
  is nearest to the literal unless that has been led astray. -/
  of_width_32 : register.width = 32 → ∃ wide code,
    register.Holds text (single.encode negative code) ∧ double.Nearest q wide ∧
      (wide = double.infinity → code = single.infinity) ∧
      (wide < double.infinity → single.Nearest (double.magnitude wide) code) ∧
      (single.Nearest q code ↔ ¬ (wide < double.infinity ∧ Astray q (double.magnitude wide) code))

/-- Every literal of a finite number is rounded, and every text that is taken is one or is
infinity. -/
structure RoundsLiterals (register : Register) : Prop where
  accepted : ∀ text, ((tryFloat text).outcome register).1 = .ok true →
    (∃ negative, Literal.read? text = some (.infinite negative)) ∨
      ∃ negative q, Literal.Spells text negative q
  stored : ∀ text negative q, Literal.Spells text negative q →
    register.Stored text negative q

theorem spells_of_outcome {register : Register} {text : Text}
    (h : ((tryFloat text).outcome register).1 = .ok true) :
    (∃ negative, Literal.read? text = some (.infinite negative)) ∨
      ∃ negative q, Literal.Spells text negative q := by
  rw [tryFloat, outcome_bind, outcome_look] at h
  cases hformat : register.floatFormat with
  | error fault =>
    rw [hformat] at h
    cases h
  | ok format =>
    rw [hformat] at h
    dsimp only at h
    split at h
    · next bits hbits => exact spells_of_readBits? hbits
    · cases h

section

variable {register : Register} {text : Text} {negative : Bool} {q : ℚ}

theorem floatFormat_of_width {format : FloatFormat}
    (h : FloatFormat.ofWidth? register.width = some format) : register.floatFormat = .ok format := by
  rw [floatFormat, h]

theorem stored_double (h : Literal.Spells text negative q) (hwidth : register.width = 64) :
    ∃ code, register.Holds text (double.encode negative code) ∧ double.Nearest q code := by
  have hformat : register.floatFormat = .ok double :=
    floatFormat_of_width (by rw [hwidth]; rfl)
  obtain ⟨d, rfl, hbits⟩ := readBits?_of_spells h double
  have hbetween := between_ofDecimal d
  rw [convert_self hbetween.le_infinity] at hbits
  exact ⟨_, outcome_tryFloat_some hformat hbits, hbetween.nearest proper_double⟩

theorem stored_single (h : Literal.Spells text negative q) (hwidth : register.width = 32) :
    ∃ wide code, register.Holds text (single.encode negative code) ∧ double.Nearest q wide ∧
      (wide = double.infinity → code = single.infinity) ∧
      (wide < double.infinity → single.Nearest (double.magnitude wide) code) ∧
      (single.Nearest q code ↔ ¬ (wide < double.infinity ∧ Astray q (double.magnitude wide) code)) := by
  have hformat : register.floatFormat = .ok single :=
    floatFormat_of_width (by rw [hwidth]; rfl)
  obtain ⟨d, rfl, hbits⟩ := readBits?_of_spells h single
  have hwide := between_ofDecimal d
  generalize double.ofDecimal d = wide at hwide hbits
  refine ⟨wide, _, outcome_tryFloat_some hformat hbits, hwide.nearest proper_double, ?_, ?_, ?_⟩
  · rintro rfl
    exact if_neg (lt_irrefl _)
  · intro hfinite
    exact (between_convert proper_double proper_single hfinite).nearest proper_single
  · rw [nearest_iff_between proper_single]
    rcases Nat.lt_or_eq_of_le hwide.le_infinity with hfinite | rfl
    · have hcode := between_convert proper_double proper_single hfinite
      rw [between_narrowed_iff hwide hfinite hcode, and_iff_right hfinite]
    · have hcode : convert double single double.infinity = single.infinity := if_neg (lt_irrefl _)
      rw [hcode]
      exact iff_of_true (between_infinity_of_double hwide) fun hastray => lt_irrefl _ hastray.1

end

/-- **Literals are rounded** to the nearest number of 64 bits, and from there to 32. -/
theorem roundsLiterals_tryFloat (register : Register) : RoundsLiterals register where
  accepted _ := spells_of_outcome
  stored _ _ _ h := ⟨stored_double h, stored_single h⟩

/-- The middle of one and the next number of 32 bits is `1 + 2 ^ (-24)`. A literal above it that
rounds to it in 64 bits is stored as one, and the next number is nearer. -/
theorem roundsLiterals_tryFloat_astray :
    let text := "1.0000000596046448".toList
    let q : ℚ := 1 + 596046448 / 10 ^ 16
    Literal.Spells text false q ∧ (Register.mk 32 0).Holds text 1065353216 ∧
      ¬ single.Nearest q 1065353216 ∧ single.Nearest q 1065353217 := by
  intro text q
  have hspells : Literal.Spells text false q := by
    refine Literal.spells_iff.mpr ⟨⟨10000000596046448, -16⟩, by decide +kernel, ?_⟩
    norm_num [Decimal.value, q]
  have hnext : single.Nearest q 1065353217 := by
    refine Between.nearest proper_single ⟨by decide, ?_, fun _ => ⟨by decide +kernel, ?_⟩⟩
    · rintro lower hlower
      obtain rfl : lower = 1065353216 := by omega
      exact ⟨by decide +kernel, by decide +kernel⟩
    · decide +kernel
  refine ⟨hspells, by decide +kernel, fun hstored => ?_, hnext⟩
  cases hstored.unique proper_single hnext

end Register

end BitLayout
