import BitLayout.Numeral

/-!
# Display options

How a register is shown: the radix of its numerals, whether they are signed, and whether the
floating point number in its bits is shown beside them. Options can be kept as settings, a text for
each of them; a setting that is missing leaves its option as it is without settings, and an empty
text turns an option off.
-/

namespace BitLayout

structure DisplayOptions where
  radix : Radix
  signed : Bool
  asFloat : Bool
  deriving Repr, DecidableEq

/-- Options as they are asked for, where the base may be any number. -/
structure DisplayRequest where
  base : Int
  signed : Bool
  asFloat : Bool
  deriving Repr, DecidableEq

/-- Stored options; each may be missing. -/
structure Settings where
  radix : Option Text
  signed : Option Text
  asFloat : Option Text
  deriving Repr, DecidableEq

inductive SettingsError where
  | badRadix (error : NumeralError)
  /-- The radix is not even a number that can be read. -/
  | notANumber (text : Text)
  deriving Repr, DecidableEq

def SettingsError.message : SettingsError → String
  | .badRadix error => error.message
  | .notANumber text =>
    s!"radix must be 2, 8, 10 or 16, got {String.ofList (Text.quoted text)}"

namespace DisplayRequest

/-- Unsigned hexadecimal numerals and no floating point numbers. -/
def default : DisplayRequest :=
  ⟨16, false, false⟩

/-- The options that are asked for, if the base is that of a radix. -/
def check (request : DisplayRequest) : Except (Failure NumeralError) DisplayOptions := do
  return ⟨← Radix.ofBase request.base, request.signed, request.asFloat⟩

end DisplayRequest

namespace DisplayOptions

/-- A whole number in decimal, with a sign or without, unless it is too long to be read. -/
def readWhole? (t : Text) : Option Int := do
  let plain ← Text.plainNumber? t
  let (negative, digits) := match plain with
    | '-' :: digits => (true, digits)
    | '+' :: digits => (false, digits)
    | digits => (false, digits)
  let n ← Numeral.ofDigits? .dec digits
  guard (¬ Numeral.TooMany .dec digits)
  return if negative then -(n : Int) else n

def isOn (setting : Option Text) : Bool :=
  setting.any (· ≠ [])

def ofSettings (settings : Settings) : Except (Failure SettingsError) DisplayOptions := do
  let base ← match settings.radix with
    | none => .ok DisplayRequest.default.base
    | some text =>
      match readWhole? text with
      | some base => .ok base
      | none => .error (.refused (.notANumber text))
  let request : DisplayRequest := ⟨base, isOn settings.signed, isOn settings.asFloat⟩
  request.check.mapError (Failure.map .badRadix)

/-- The text that turns an option on or off. -/
def switch (on : Bool) : Text :=
  if on then ['1'] else []

def toSettings (options : DisplayOptions) : Settings :=
  ⟨some (Numeral.decimal options.radix.base), some (switch options.signed),
    some (switch options.asFloat)⟩

end DisplayOptions

end BitLayout
