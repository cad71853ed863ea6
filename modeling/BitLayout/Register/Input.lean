import BitLayout.Decimal.Notation
import BitLayout.Register.Basic

/-!
# What is typed into a register, and what it shows

A register of 32 or 64 bits can also be taken for a floating point number. Text that is no numeral
may then be a decimal literal: reading a numeral tries this where the text has a point, and reading
input where the options ask for it. A text that is neither leaves the register as it was.
-/

namespace BitLayout

namespace Register

def floatStyle : Decimal.Style :=
  .standard

def isFloatCapable (register : Register) : Bool :=
  (FloatFormat.ofWidth? register.width).isSome

/-- The floating point format of the width. An error tells the width, in decimal. -/
def floatFormat (register : Register) : Except RegisterFault FloatFormat :=
  match FloatFormat.ofWidth? register.width with
  | some format => .ok format
  | none =>
    .error (if Numeral.Long .dec register.width then .tooLong else .noFloat register.width)

/-- Stores the bits of a literal, unless the text is none or is not a number. -/
def tryFloat (text : Text) : Work RegisterFault Register Bool := do
  let format ← Work.look floatFormat
  match format.readBits? text with
  | some bits =>
    modify fun register => { register with raw := bits }
    return true
  | none => return false

/-- The floating point number in the low bits. -/
def writeFloat (register : Register) : Except RegisterFault Text := do
  let format ← register.floatFormat
  let bits ← register.unsigned?.mapError .bits
  return format.writeBits floatStyle bits.toNat

/-- Stores a numeral, or a literal that has a point. -/
def readNumeral (text : Text) (base : Int) : Work RegisterFault Register Int :=
  tryCatch (onRaw (Value.readNumeral text base)) fun
    | .numeral (.badDigits radix digits) => do
      if (← Work.current).isFloatCapable ∧ '.' ∈ text then
        if ← tryFloat text then return (← Work.current).raw
      throw (.numeral (.badDigits radix digits))
    | fault => throw fault

/-- Stores what was typed in, if that is a numeral, or a literal where the options and the width
allow one. -/
def readInput (text : Text) (options : DisplayOptions) : Work RegisterFault Register Bool := do
  if ← onRaw (Value.tryNumeral text options.radix.base) then return true
  if options.asFloat ∧ (← Work.current).isFloatCapable then tryFloat text else return false

/-- What is added to the numeral of a register: its floating point number, where the options and
the width allow one. -/
def floatNote (register : Register) (options : DisplayOptions) : Except RegisterFault Text :=
  if options.asFloat ∧ register.isFloatCapable then
    register.writeFloat.map (", ".toList ++ ·)
  else .ok []

/-- What is shown for a register: its numeral with the note behind it, and its number in
hexadecimal. -/
def summary (register : Register) (options : DisplayOptions) : Except RegisterFault Text := do
  let numeral ← register.render options.radix.base options.signed
  let note ← register.floatNote options
  let hex ← register.render 16 false
  return numeral ++ note ++ " (".toList ++ hex ++ [')']

end Register

end BitLayout
