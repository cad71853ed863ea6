import BitLayout.Bits
import BitLayout.DisplayOptions
import BitLayout.Layout
import BitLayout.Value

/-!
# Registers

A register stores an integer of any size and has a width. The width says how many of the low bits
are looked at, and never changes what is stored: a number that was stored is there again when the
register gets wider.

The width may be any integer. Nothing can be looked at through a negative one, and looking then
fails.
-/

namespace BitLayout

/-- An integer of any size, of which the low bits are looked at. -/
structure Register where
  width : Int
  /-- The stored integer. -/
  raw : Int
  deriving Repr, DecidableEq

inductive AccessFault where
  | badBit
  | badRange
  | noField
  deriving Repr, DecidableEq

def AccessFault.message : AccessFault → String
  | .badBit => "Index out of bounds"
  | .badRange => "Bit range needs non-negative high and low bits"
  | .noField => "Field not found"

inductive RegisterFault where
  | numeral (error : NumeralError)
  /-- A number has too many decimal digits. -/
  | tooLong
  | bits (fault : Bits.Fault)
  | access (fault : AccessFault)
  /-- No floating point format has the width of the register. -/
  | noFloat (width : Int)
  | document (error : DocumentError)
  deriving Repr, DecidableEq

namespace RegisterFault

/-- What is told about a fault; of a number that is too long nothing is, and neither is of bits that
cannot be there. -/
def message? : RegisterFault → Option String
  | .numeral error => some error.message
  | .tooLong => none
  | .bits _ => none
  | .access fault => some fault.message
  | .noFloat width => some s!"Register width must be 32 or 64 for float, got {width}"
  | .document error => some error.message

def ofNumeral : Failure NumeralError → RegisterFault :=
  Failure.elim .numeral .tooLong

def ofDocument : Failure DocumentError → RegisterFault :=
  Failure.elim .document .tooLong

/-- A fault of the stored integer as a fault of the register. -/
def ofValue : Value.Fault → RegisterFault
  | .numeral error => .numeral error
  | .tooLong => .tooLong
  | .bits fault => .bits fault

end RegisterFault

namespace Register

/-- Work on the stored integer, of which the width is no part. -/
def onRaw {α : Type} (work : Work Value.Fault Int α) : Work RegisterFault Register α :=
  work.within Register.raw (fun register raw => { register with raw := raw })
    RegisterFault.ofValue

/-! ## Views -/

def capacity? (register : Register) : Except Bits.Fault Int := do
  return Bits.weight (← Bits.position register.width)

def unsigned? (register : Register) : Except Bits.Fault Int :=
  Bits.extract? register.raw 0 register.width

/-- The number in the low bits, in two's complement. -/
def signed? (register : Register) : Except Bits.Fault Int := do
  return Bits.toSigned (← register.unsigned?) register.width

/-- The number of binary digits of a number, without zeros in front. -/
def bitLength (n : Nat) : Nat :=
  if n = 0 then 0 else n.log2 + 1

/-- How wide the register has to be for the number in its low bits, at least one bit. -/
def minWidth? (register : Register) : Except Bits.Fault Int := do
  return max (bitLength (← register.unsigned?).natAbs) 1

structure Views where
  capacity : Int
  unsigned : Int
  signed : Int
  minWidth : Int
  deriving Repr, DecidableEq

def views? (register : Register) : Except Bits.Fault Views := do
  return ⟨← register.capacity?, ← register.unsigned?, ← register.signed?, ← register.minWidth?⟩

/-! ## Texts -/

/-- The numeral of a view. The view is looked at before the base. -/
def render (register : Register) (base : Int) (signed : Bool) : Except RegisterFault Text := do
  let view ← (if signed then register.signed? else register.unsigned?).mapError .bits
  (Numeral.format view base).mapError .ofNumeral

/-- The low bits, one digit each; none for a width that is not positive. -/
def dump (register : Register) : Text :=
  match register.width with
  | .ofNat width =>
    if width = 0 then [] else Numeral.padded .bin width (Bits.extract register.raw 0 width)
  | .negSucc _ => []

/-- Width and low bits, of which the width is written in decimal and before the bits are looked
at. -/
def outline? (register : Register) : Except RegisterFault Text := do
  if Numeral.Long .dec register.width then throw .tooLong
  let view ← register.unsigned?.mapError .bits
  return "Register(width=".toList ++ Numeral.decimal register.width ++ ", value=".toList ++
    Numeral.render .hex view ++ [')']

/-! ## Places -/

/-- A place in a register, by position or by name. -/
inductive Key where
  | bit (index : Int)
  /-- The bits from one bound through the other, in either order; a bound may be missing. -/
  | range (high low : Option Int)
  | name (name : Text)
  deriving Repr, DecidableEq

/-- Position and width of a place. A register alone has no names. -/
def Key.span : Key → Except AccessFault (Nat × Nat)
  | .bit (.ofNat index) => .ok (index, 1)
  | .bit (.negSucc _) => .error .badBit
  | .range (some (.ofNat high)) (some (.ofNat low)) =>
    .ok (min high low, max high low - min high low + 1)
  | .range _ _ => .error .badRange
  | .name _ => .error .noField

def get (register : Register) (key : Key) : Except AccessFault Int := do
  let (index, width) ← key.span
  return Bits.extract register.raw index width

/-- Writes the low bits of a number to a place. -/
def writeAt (key : Key) (x : Int) : Work RegisterFault Register Unit := do
  let (index, width) ← Work.look fun _ => key.span.mapError .access
  let _ ← onRaw (Value.write index width x)

/-- The value of a field that has bits. -/
def readField? (register : Register) (field : Field) : Except Bits.Fault Int :=
  Bits.extract? register.raw (field.index.getD 0) field.width

def readIndicator? (register : Register) (field : Field) : Except Bits.Fault Int :=
  Bits.extract? register.raw (field.index.getD 0) 1

/-- The value of each named field and then of each indicator of a layout. Where a name occurs
again, its value is the later one. -/
def fieldValues? (register : Register) (layout : Layout) : Except Bits.Fault NameTable := do
  let fields ← (layout.fields.filter (·.name ≠ [])).mapM fun field => do
    return (field.name, ← register.readField? field)
  let bits ← layout.bits.values.mapM fun field => do
    return (field.name, ← register.readIndicator? field)
  return Table.ofList (fields ++ bits)

end Register

end BitLayout
