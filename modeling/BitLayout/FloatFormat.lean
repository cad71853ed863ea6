import BitLayout.Decimal.Literal

/-!
# Binary floating point

A binary format has a sign bit, a number of exponent bits and a fraction; this module knows the
two of 32 and 64 bits. The bits without the sign are the *code* of a magnitude. Codes count the
magnitudes of a format upwards from zero: first the subnormal numbers in equal steps, then
binades of numbers whose steps double from one to the next, then infinity, then what is not a
number.

Everything is arithmetic of natural numbers: `steps` gives a magnitude as a multiple of the least
positive one, and `round` finds the code nearest to a quotient, where a tie goes to the even code.
-/

namespace BitLayout

/-- A binary format: one sign bit, and as many exponent bits and significant bits as it says. -/
structure FloatFormat where
  /-- The significant bits of a number, the leading one included. -/
  precision : Nat
  exponentBits : Nat
  deriving Repr, DecidableEq

inductive FloatDatum where
  | nan
  | infinite (negative : Bool)
  | finite (negative : Bool) (code : Nat)
  deriving Repr, DecidableEq

namespace FloatFormat

def single : FloatFormat :=
  ⟨24, 8⟩

def double : FloatFormat :=
  ⟨53, 11⟩

def ofWidth? (width : Int) : Option FloatFormat :=
  if width = 32 then some single
  else if width = 64 then some double
  else none

/-- The number of bits, of which the leading significant bit is none. -/
def width (format : FloatFormat) : Nat :=
  format.precision + format.exponentBits

def binade (format : FloatFormat) : Nat :=
  Nat.pow 2 (format.precision - 1)

def infinity (format : FloatFormat) : Nat :=
  (Nat.pow 2 format.exponentBits - 1) * format.binade

/-- The least positive magnitude is two to the power minus `scale`. -/
def scale (format : FloatFormat) : Nat :=
  Nat.pow 2 (format.exponentBits - 1) - 2 + (format.precision - 1)

/-- The magnitude of a code, in multiples of the least positive one. -/
def steps (format : FloatFormat) (code : Nat) : Nat :=
  let exponent := code / format.binade
  let fraction := code % format.binade
  if exponent = 0 then fraction
  else (format.binade + fraction) * Nat.pow 2 (exponent - 1)

/-! ## Rounding -/

/-- The whole number nearest to a quotient; a tie goes to the even one. -/
def roundHalfEven (num den : Nat) : Nat :=
  let q := num / den
  let twice := 2 * (num % den)
  if twice < den ∨ twice = den ∧ q % 2 = 0 then q else q + 1

/-- The code of the magnitude nearest to `num / den`, for a positive `den`. The steps of the
binade that holds the quotient are two to the power `shift` times the least one. -/
def round (format : FloatFormat) (num den : Nat) : Nat :=
  let scaled := num * Nat.pow 2 format.scale
  let shift := Nat.log2 (scaled / den) + 1 - format.precision
  let code := shift * format.binade + roundHalfEven scaled (den * Nat.pow 2 shift)
  if code < format.infinity then code else format.infinity

/-- The code nearest to a decimal. The digits and the exponent together bound the number, so that
one far beyond all codes is not written out. -/
def ofDecimal (format : FloatFormat) (d : Decimal) : Nat :=
  let magnitude := (Numeral.digits .dec d.digits).length + d.exponent
  if d.digits = 0 ∨ magnitude < -400 then 0
  else if 400 < magnitude then format.infinity
  else if 0 ≤ d.exponent then format.round (d.digits * Nat.pow 10 d.exponent.toNat) 1
  else format.round d.digits (Nat.pow 10 (-d.exponent).toNat)

/-- The code nearest to the magnitude of a code of another format. -/
def convert (source target : FloatFormat) (code : Nat) : Nat :=
  if code < source.infinity then target.round (source.steps code) (Nat.pow 2 source.scale)
  else target.infinity

/-! ## Bits -/

def encode (format : FloatFormat) (negative : Bool) (code : Nat) : Nat :=
  (if negative then Nat.pow 2 (format.width - 1) else 0) + code

def decode (format : FloatFormat) (bits : Nat) : FloatDatum :=
  let negative := bits / Nat.pow 2 (format.width - 1) % 2 == 1
  let code := bits % Nat.pow 2 (format.width - 1)
  if code < format.infinity then .finite negative code
  else if code = format.infinity then .infinite negative
  else .nan

/-- The bits of a literal, unless it is not a number. A decimal is first rounded to 64 bits, and
from there to the bits of the format. -/
def ofLiteral? (format : FloatFormat) : Decimal.Literal → Option Nat
  | .nan => none
  | .infinite negative => some (format.encode negative format.infinity)
  | .finite negative magnitude =>
    some (format.encode negative (convert double format (double.ofDecimal magnitude)))

/-- The bits of the literal that a text is, unless it is none or not a number. -/
def readBits? (format : FloatFormat) (t : Text) : Option Nat := do
  format.ofLiteral? (← Decimal.Literal.read? t)

end FloatFormat

end BitLayout
