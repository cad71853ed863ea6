import BitLayout.Text.Quoted

/-!
# Numerals

Whole numbers as text, in one of four radices. A numeral carries its radix in a mark in front of
its digits: `0b` for binary, `0o` or a `0` before another digit for octal, `0x` for hexadecimal. A
numeral without a mark is read in the radix its reader asks for. One minus sign may stand in front,
and white space around.

`Numeral.render` is the marked numeral of a number, which `Numeral.format` writes and `Numeral.read`
reads back; `Numeral.renderPadded` writes as many digits as a register of a given width needs, so
that such texts line up and sort like their values.

Decimal digits are converted up to a limit, `Numeral.mostDecimals`, in both directions. A number
with more of them is neither read nor written, and whoever asked for it fails. That is not an
error of the text: no reader answers for it, and it passes through all of them
(`Failure.tooLong`). The other radices have no limit.
-/

namespace BitLayout

/-! ## Radices -/

inductive Radix where
  | bin
  | oct
  | dec
  | hex
  deriving Repr, DecidableEq, Inhabited

namespace Radix

/-- The number of digits of the radix. -/
def base : Radix → Nat
  | .bin => 2
  | .oct => 8
  | .dec => 10
  | .hex => 16

def ofBase? (base : Int) : Option Radix :=
  if base = 2 then some .bin
  else if base = 8 then some .oct
  else if base = 10 then some .dec
  else if base = 16 then some .hex
  else none

/-- What is written in front of the digits. -/
def mark : Radix → Text
  | .bin => ['0', 'b']
  | .oct => ['0']
  | .dec => []
  | .hex => ['0', 'x']

theorem ofBase?_eq_some_iff {base : Int} {radix : Radix} :
    ofBase? base = some radix ↔ base = radix.base := by
  constructor
  · intro h
    simp only [ofBase?] at h
    split at h
    · cases h; assumption
    · split at h
      · cases h; assumption
      · split at h
        · cases h; assumption
        · split at h
          · cases h; assumption
          · cases h
  · rintro rfl
    cases radix <;> rfl

theorem one_lt_base (radix : Radix) : 1 < radix.base := by
  cases radix <;> decide

end Radix

/-! ## Failures -/

/-- Why a text is not read as a number, or a number not written. -/
inductive NumeralError where
  /-- The base asked for is none of the four. -/
  | badRadix (base : Int)
  /-- What follows sign and mark is not a number in the radix. -/
  | badDigits (radix : Radix) (text : Text)
  deriving Repr, DecidableEq

namespace NumeralError

def message : NumeralError → String
  | .badRadix base => s!"radix must be 2, 8, 10 or 16, got {base}"
  | .badDigits radix text =>
    s!"Invalid base {radix.base} numeral: {String.ofList (Text.quoted text)}"

end NumeralError

/-- How a reader or a writer fails: with an error that is told, or because of a number that has
too many decimal digits. -/
inductive Failure (ε : Type) where
  | refused (error : ε)
  | tooLong
  deriving Repr, DecidableEq

namespace Failure

variable {ε δ φ : Type}

/-- The failure with its error told as a part of another. -/
def map (f : ε → δ) : Failure ε → Failure δ
  | .refused error => .refused (f error)
  | .tooLong => .tooLong

/-- The failure as one of several faults. -/
def elim (refused : ε → φ) (tooLong : φ) : Failure ε → φ
  | .refused error => refused error
  | .tooLong => tooLong

end Failure

namespace Numeral

/-! ## Digits -/

/-- The value of a digit, letters in either case. -/
def digitValue? (c : Char) : Option Nat :=
  if '0' ≤ c ∧ c ≤ '9' then some (c.toNat - '0'.toNat)
  else if 'a' ≤ c ∧ c ≤ 'f' then some (c.toNat - 'a'.toNat + 10)
  else if 'A' ≤ c ∧ c ≤ 'F' then some (c.toNat - 'A'.toNat + 10)
  else none

def isDigitOf (radix : Radix) (c : Char) : Bool :=
  (digitValue? c).any (· < radix.base)

def ofDigits (radix : Radix) (digits : Text) : Nat :=
  digits.foldl (fun n c => radix.base * n + (digitValue? c).getD 0) 0

/-- The number of one digit of the radix or more, however many they are. -/
def ofDigits? (radix : Radix) (digits : Text) : Option Nat :=
  if digits ≠ [] ∧ digits.all (isDigitOf radix) then some (ofDigits radix digits) else none

/-- The digits of a number, without zeros in front. -/
def digits (radix : Radix) (n : Nat) : Text :=
  Nat.toDigits radix.base n

/-- No more decimal digits than these are converted to a number, or a number to. -/
def mostDecimals : Nat :=
  4300

/-- The digits are too many to be converted, zeros in front of them included. -/
def TooMany (radix : Radix) (digits : Text) : Prop :=
  radix = .dec ∧ mostDecimals < digits.length

instance (radix : Radix) (digits : Text) : Decidable (TooMany radix digits) :=
  inferInstanceAs (Decidable (_ ∧ _))

/-- The number cannot be written in the radix. -/
def Long (radix : Radix) (value : Int) : Prop :=
  TooMany radix (digits radix value.natAbs)

instance (radix : Radix) (value : Int) : Decidable (Long radix value) :=
  inferInstanceAs (Decidable (TooMany _ _))

end Numeral

/-- The radix of a base. An error tells the base, in decimal. -/
def Radix.ofBase (base : Int) : Except (Failure NumeralError) Radix :=
  match ofBase? base with
  | some radix => .ok radix
  | none => .error (if Numeral.Long .dec base then .tooLong else .refused (.badRadix base))

namespace Numeral

/-! ## Reading -/

/-- The radix that the front of an unsigned numeral announces, and what is left for the digits.
A zero is a mark when a digit of any kind follows it. -/
def announced (otherwise : Radix) : Text → Radix × Text
  | '0' :: c :: rest =>
    if c = 'b' ∨ c = 'B' then (.bin, rest)
    else if c = 'o' ∨ c = 'O' then (.oct, rest)
    else if c = 'x' ∨ c = 'X' then (.hex, rest)
    else if Text.isDigit c then (.oct, c :: rest)
    else (otherwise, '0' :: c :: rest)
  | body => (otherwise, body)

/-- The value of an unsigned numeral, or the radix it is refused in. -/
def readMagnitude (radix : Radix) (body : Text) : Except (Failure Radix) Nat :=
  let (radix, digits) := announced radix body
  match ofDigits? radix digits with
  | some n => if TooMany radix digits then .error .tooLong else .ok n
  | none => .error (.refused radix)

/-- Reads a numeral; without a mark it is in the given radix. -/
def read (radix : Radix) (text : Text) : Except (Failure NumeralError) Int :=
  let text := Text.trim text
  let signed : Except (Failure Radix) Int :=
    match text with
    | '-' :: body => (readMagnitude radix body).map fun n : Nat => -(n : Int)
    | body => (readMagnitude radix body).map fun n : Nat => (n : Int)
  signed.mapError (Failure.map (.badDigits · text))

/-- Reads a numeral; without a mark it is in the given base, which is checked first. -/
def parse (text : Text) (base : Int) : Except (Failure NumeralError) Int := do
  read (← Radix.ofBase base) text

/-! ## Writing -/

/-- The digits of a number with minus sign and mark in front, however many digits it has. -/
def render (radix : Radix) (value : Int) : Text :=
  (if value < 0 then ['-'] else []) ++ radix.mark ++ digits radix value.natAbs

/-- Writes a numeral in a base, which is checked first. -/
def format (value : Int) (base : Int) : Except (Failure NumeralError) Text := do
  let radix ← Radix.ofBase base
  if Long radix value then throw .tooLong
  return render radix value

def decimal (value : Int) : Text :=
  render .dec value

/-- At least `width` characters: zeros fill the room between sign and digits. -/
def padded (radix : Radix) (width : Nat) (value : Int) : Text :=
  if value < 0 then '-' :: (digits radix value.natAbs).leftpad (width - 1) '0'
  else (digits radix value.natAbs).leftpad width '0'

/-- How many digits a number of `width` bits needs; none is asked for in decimal. -/
def digitCount (width : Int) : Radix → Int
  | .bin => width
  | .oct => (width + 2) / 3
  | .dec => 0
  | .hex => (width + 3) / 4

/-- No text is padded to more digits than a signed word of 64 bits can count. -/
def mostDigits : Nat :=
  9223372036854775807

/-- Why a padded numeral is not written. -/
inductive PaddingError where
  | numeral (error : NumeralError)
  /-- The number has too many decimal digits. -/
  | tooLong
  /-- The digit count of a negative width is below zero. -/
  | negativeWidth
  /-- More digits are asked for than `mostDigits`. -/
  | tooWide
  deriving Repr, DecidableEq

/-- The mark and the digits of a number, padded to what a register of `width` bits needs. -/
def renderPadded (radix : Radix) (width : Int) (value : Int) : Except PaddingError Text :=
  match digitCount width radix with
  | .ofNat count =>
    if mostDigits < count then .error .tooWide
    else if Long radix value then .error .tooLong
    else .ok (radix.mark ++ padded radix count value)
  | .negSucc _ => .error .negativeWidth

/-- Writes a padded numeral in a base, which is checked first. -/
def formatPadded (value base width : Int) : Except PaddingError Text := do
  let radix ← (Radix.ofBase base).mapError (Failure.elim .numeral .tooLong)
  renderPadded radix width value

end Numeral

end BitLayout
