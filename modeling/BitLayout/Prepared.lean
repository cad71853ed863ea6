import BitLayout.Numeral

/-!
# Prepared descriptions

Descriptions that need not be typed. Names and widths as a register database lists them are written
as a description with one field on each line, where a missing width leaves the field one bit wide.
The parts of the floating point numbers of 32 and 64 bits are built in, with names for the two
exponents of special meaning.
-/

namespace BitLayout

/-! ## Field definitions -/

namespace Definition

/-- A width as it is listed: none, a number, or the text of one. -/
inductive Width where
  | missing
  | number (count : Int)
  | typed (text : Text)
  deriving Repr, DecidableEq

/-- What is written for a width, unless it is a number that is too long to be written. -/
def Width.text? : Width → Option Text
  | .missing => some []
  | .number count => if Numeral.Long .dec count then none else some (Numeral.decimal count)
  | .typed text => some text

end Definition

/-- A field as a register database lists it. -/
structure Definition where
  name : Option Text
  width : Definition.Width
  deriving Repr, DecidableEq

namespace Definition

/-- The name without white space around it; a missing one is empty. -/
def title (definition : Definition) : Text :=
  Text.trim (definition.name.getD [])

def line? (definition : Definition) : Option Text :=
  definition.width.text?.map fun width => definition.title ++ [':'] ++ Text.trim width

/-- The description of the definitions, if all their widths can be written. -/
def describe? (definitions : List Definition) : Option Text :=
  (definitions.mapM line?).map (Text.joinWith ['\n'])

end Definition

/-! ## Built-in descriptions -/

/-- A description with a title. -/
structure Preset where
  name : Text
  /-- The description. -/
  text : Text
  deriving Repr, DecidableEq

namespace Preset

/-- The description of a floating point number with so many bits of exponent and fraction, where
`special` is the numeral of the highest exponent. -/
def floatingPoint (exponentBits fractionBits special : String) : Text :=
  Text.joinWith ['\n'] <| List.map String.toList
    ["enum Exponent \x7b",
     "  EXPONENT_SUBNORMAL",
     "  EXPONENT_SPECIAL = " ++ special,
     "\x7d",
     "",
     "sign:1:lightblue",
     "exponent:" ++ exponentBits ++ ":lightgreen:Exponent",
     "fraction:" ++ fractionBits ++ ":lightpink"]

/-- The parts of a floating point number of 32 bits. -/
def singlePrecision : Preset :=
  ⟨"IEEE754 single-precision".toList, floatingPoint "8" "23" "0xff"⟩

/-- The parts of a floating point number of 64 bits. -/
def doublePrecision : Preset :=
  ⟨"IEEE754 double-precision".toList, floatingPoint "11" "52" "0x7ff"⟩

def all : List Preset :=
  [singlePrecision, doublePrecision]

end Preset

end BitLayout
