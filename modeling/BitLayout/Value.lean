import BitLayout.Bits
import BitLayout.Numeral
import BitLayout.Work

/-!
# Values without a width

An integer of any size as a place to store numbers: it is read from numerals and written as one,
and its bits are accessed in two's complement. Nothing ever cuts it off.

`Value.step` does one thing with a value, and tells the value that it leaves.
-/

namespace BitLayout

namespace Value

inductive Step where
  /-- Stores what a numeral says. -/
  | readNumeral (text : Text) (base : Int)
  /-- Stores what a numeral says, if the text is one. -/
  | tryNumeral (text : Text) (base : Int)
  | render (base : Int)
  | get
  | toggle (index : Int)
  | read (index width : Int)
  | write (index width x : Int)
  deriving Repr, DecidableEq

inductive Answer where
  | number (n : Int)
  | flag (value : Bool)
  | text (text : Text)
  deriving Repr, DecidableEq

inductive Fault where
  | numeral (error : NumeralError)
  /-- A number has too many decimal digits. -/
  | tooLong
  | bits (fault : Bits.Fault)
  deriving Repr, DecidableEq

def Fault.ofNumeral : Failure NumeralError → Fault :=
  Failure.elim .numeral .tooLong

/-! ## What can be done with a value -/

/-- Stores what a numeral says. -/
def readNumeral (text : Text) (base : Int) : Work Fault Int Int := do
  let n ← Work.look fun _ => (Numeral.parse text base).mapError .ofNumeral
  set n
  return n

/-- Stores what a numeral says, if the text is one. A bad base is a failure still, and so is a
numeral that is too long. -/
def tryNumeral (text : Text) (base : Int) : Work Fault Int Bool :=
  tryCatch (do let _ ← readNumeral text base; return true) fun
    | .numeral (.badDigits _ _) => return false
    | fault => throw fault

def toggle (index : Int) : Work Fault Int Int := do
  let n ← Work.look fun value => (Bits.toggle? value index).mapError .bits
  set n
  return n

def read (index width : Int) : Work Fault Int Int :=
  Work.look fun value => (Bits.extract? value index width).mapError .bits

/-- Writes the low bits of a number to `width` bits. -/
def write (index width x : Int) : Work Fault Int Int := do
  let n ← Work.look fun value => (Bits.insert? value index width x).mapError .bits
  set n
  return n

/-! ## Steps -/

def perform : Step → Work Fault Int Answer
  | .readNumeral text base => .number <$> readNumeral text base
  | .tryNumeral text base => .flag <$> tryNumeral text base
  | .render base =>
    .text <$> Work.look fun value => (Numeral.format value base).mapError .ofNumeral
  | .get => .number <$> Work.look .ok
  | .toggle index => .number <$> toggle index
  | .read index width => .number <$> read index width
  | .write index width x => .number <$> write index width x

def step (value : Int) (step : Step) : Except Fault Answer × Int :=
  (perform step).outcome value

end Value

end BitLayout
