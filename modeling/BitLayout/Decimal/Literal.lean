import BitLayout.Numeral

/-!
# Decimal literals

The text of a number with a fraction or an exponent: an optional sign, digits with an optional
point among them, and an optional exponent. At least one digit stands before the exponent, and the
exponent has at least one of its own. Infinity and the absence of a number are written by words, in
either case.
-/

namespace BitLayout

/-- The number `digits * 10 ^ exponent`. -/
structure Decimal where
  digits : Nat
  exponent : Int
  deriving Repr, DecidableEq

namespace Decimal

inductive Literal where
  | nan
  | infinite (negative : Bool)
  | finite (negative : Bool) (magnitude : Decimal)
  deriving Repr, DecidableEq

/-- The digits at the front of a text, and what is behind them. -/
def spanDigits (t : Text) : Text × Text :=
  (t.takeWhile Text.isAsciiDigit, t.dropWhile Text.isAsciiDigit)

/-- A sign at the front of a text, and what is behind it. -/
def takeSign : Text → Bool × Text
  | '-' :: t => (true, t)
  | '+' :: t => (false, t)
  | t => (false, t)

/-- The exponent that is all of a text; no text is the exponent zero. -/
def readExponent? : Text → Option Int
  | [] => some 0
  | c :: t =>
    if c = 'e' ∨ c = 'E' then
      let signed := takeSign t
      if signed.2 ≠ [] ∧ signed.2.all Text.isAsciiDigit then
        let n : Int := Numeral.ofDigits .dec signed.2
        some (if signed.1 then -n else n)
      else none
    else none

/-- The unsigned decimal that is all of a text. The digits behind the point count as well, and
each of them takes one off the exponent. -/
def readMagnitude? (t : Text) : Option Decimal :=
  let whole := spanDigits t
  let fraction := match whole.2 with
    | '.' :: rest => spanDigits rest
    | rest => ([], rest)
  let digits := whole.1 ++ fraction.1
  if digits = [] then none
  else (readExponent? fraction.2).map fun exponent =>
    ⟨Numeral.ofDigits .dec digits, exponent - fraction.1.length⟩

def infinityWords : List Text :=
  ["inf".toList, "infinity".toList]

/-- Reads a literal as it is typed, with white space around it, digits of any script and
underscores between digits. -/
def Literal.read? (t : Text) : Option Literal := do
  let signed := takeSign (← Text.plainNumber? t)
  let word := signed.2.map Char.toLower
  if word ∈ infinityWords then return .infinite signed.1
  else if word = "nan".toList then return .nan
  else return .finite signed.1 (← readMagnitude? signed.2)

end Decimal

end BitLayout
