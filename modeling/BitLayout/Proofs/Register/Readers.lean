import BitLayout.Register.Session

/-!
# What readers store

The outcome of each reader, told by what the text says: a numeral, a
literal, or neither. The store is the last thing a reader does, so its
outcome is an answer together with the one integer that is new.
-/

namespace BitLayout

open Work

namespace Value

theorem outcome_readNumeral (text : Text) (base value : Int) :
    (readNumeral text base).outcome value = match Numeral.parse text base with
      | .ok n => (.ok n, n)
      | .error failure => (.error (.ofNumeral failure), value) := by
  rw [readNumeral, outcome_bind, outcome_look]
  cases Numeral.parse text base <;> rfl

theorem outcome_tryNumeral_badDigits {text digits : Text} {base : Int} {radix : Radix}
    (h : Numeral.parse text base = .error (.refused (.badDigits radix digits))) (value : Int) :
    (tryNumeral text base).outcome value = (.ok false, value) := by
  rw [tryNumeral, outcome_tryCatch, outcome_bind, outcome_readNumeral, h]
  rfl

end Value

namespace Register

theorem outcome_readNumeral_ok {text : Text} {base n : Int} (h : Numeral.parse text base = .ok n)
    (register : Register) :
    (readNumeral text base).outcome register = (.ok n, { register with raw := n }) := by
  rw [readNumeral, outcome_tryCatch, onRaw, outcome_within, Value.outcome_readNumeral, h]
  rfl

theorem outcome_tryFloat_some {text : Text} {register : Register} {format : FloatFormat}
    {bits : Nat} (hformat : register.floatFormat = .ok format)
    (hbits : format.readBits? text = some bits) :
    (tryFloat text).outcome register = (.ok true, { register with raw := bits }) := by
  rw [tryFloat, outcome_bind, outcome_look, hformat]
  dsimp only
  rw [hbits]
  rfl

/-- What is no numeral is read as a literal, where that is allowed. -/
theorem outcome_readInput_float {text digits : Text} {options : DisplayOptions} {radix : Radix}
    {register : Register} {format : FloatFormat} {bits : Nat}
    (hnumeral : Numeral.parse text options.radix.base =
      .error (.refused (.badDigits radix digits)))
    (hfloat : options.asFloat = true) (hformat : register.floatFormat = .ok format)
    (hbits : format.readBits? text = some bits) :
    (readInput text options).outcome register = (.ok true, { register with raw := bits }) := by
  have hcapable : register.isFloatCapable = true := by
    unfold floatFormat at hformat
    unfold isFloatCapable
    split at hformat
    · next h => rw [h]; rfl
    · cases hformat
  rw [readInput, outcome_bind, onRaw, outcome_within,
    Value.outcome_tryNumeral_badDigits hnumeral]
  show (do if options.asFloat ∧ (← current).isFloatCapable then tryFloat text
           else return false : Work RegisterFault Register Bool).outcome register = _
  rw [outcome_bind, outcome_current]
  dsimp only
  rw [if_pos ⟨hfloat, hcapable⟩, outcome_tryFloat_some hformat hbits]

end Register

end BitLayout
