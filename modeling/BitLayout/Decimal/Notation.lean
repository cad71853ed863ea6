import BitLayout.FloatFormat

/-!
# Writing floating point numbers

A number of 64 bits is written by the decimal that stands for it: as few digits as lead back to the
same code, and of the decimals with that many digits the nearest one. The number itself is a
decimal too, with many digits, so the search ends. For each count of digits only the two neighbours
of the number among such decimals can qualify as nearest.

Which numbers are written with an exponent is a matter of style: a number whose leading digit counts
for `10 ^ e` is written out in full while `e` lies in the positional range of the style. A number
that is written in full always has a digit behind the point.
-/

namespace BitLayout

namespace Decimal

/-! ## The shortest decimal -/

/-- The exact decimal of a code: with `n` steps of two to the power minus `s`, the digits of
`n * 5 ^ s`, `s` of them behind the point. -/
def exact (code : Nat) : Decimal :=
  let format := FloatFormat.double
  ⟨format.steps code * Nat.pow 5 format.scale, -format.scale⟩

/-- The nearest decimal to `d` that leads back to `code` and has its last `dropped` digits cut
off, rounded down or up; a tie goes to the even one. -/
def neighbour? (code : Nat) (d : Decimal) (dropped : Nat) : Option Decimal :=
  let unit := Nat.pow 10 dropped
  let below : Decimal := ⟨d.digits / unit, d.exponent + dropped⟩
  let above : Decimal := ⟨d.digits / unit + 1, d.exponent + dropped⟩
  let leadsBack (candidate : Decimal) : Bool := FloatFormat.double.ofDecimal candidate = code
  let nearest := FloatFormat.roundHalfEven d.digits unit
  match leadsBack below, leadsBack above with
  | true, true => some (if nearest = below.digits then below else above)
  | true, false => some below
  | false, true => some above
  | false, false => none

def shortest (code : Nat) : Decimal :=
  let d := exact code
  let length := (Numeral.digits .dec d.digits).length
  ((List.range length).findSome? fun kept => neighbour? code d (length - (kept + 1))).getD d

/-! ## Notation -/

structure Style where
  /-- The positional range begins with this exponent. -/
  positionalFrom : Int
  /-- The positional range ends before this exponent. -/
  positionalBelow : Int
  /-- An exponent has at least so many digits. -/
  exponentDigits : Nat
  deriving Repr, DecidableEq

/-- From `10 ^ (-4)` on and below `10 ^ 16` a number is written in full; an exponent has two
digits. -/
def Style.standard : Style :=
  ⟨-4, 16, 2⟩

/-- The digits of a positive decimal without the zeros at the end. -/
def significant (d : Decimal) : Text :=
  ((Numeral.digits .dec d.digits).reverse.dropWhile (· = '0')).reverse

/-- What the leading digit of a positive decimal counts for, as a power of ten. -/
def leadingExponent (d : Decimal) : Int :=
  (Numeral.digits .dec d.digits).length + d.exponent - 1

/-- Digits with the point behind the digit that counts for one. -/
def positional (digits : Text) : Int → Text
  | .ofNat e =>
    if digits.length ≤ e + 1 then digits ++ List.replicate (e + 1 - digits.length) '0' ++ ['.', '0']
    else digits.take (e + 1) ++ '.' :: digits.drop (e + 1)
  | .negSucc e => '0' :: '.' :: (List.replicate e '0' ++ digits)

/-- Digits with the point behind the leading one, and its exponent. -/
def scientific (style : Style) (digits : Text) (exponent : Int) : Text :=
  let mantissa := match digits with
    | [] | [_] => digits
    | leading :: others => leading :: '.' :: others
  let sign := if exponent < 0 then '-' else '+'
  mantissa ++ 'e' :: sign ::
    (Numeral.digits .dec exponent.natAbs).leftpad style.exponentDigits '0'

def write (style : Style) (d : Decimal) : Text :=
  if d.digits = 0 then ['0', '.', '0']
  else
    let exponent := d.leadingExponent
    if style.positionalFrom ≤ exponent ∧ exponent < style.positionalBelow then
      positional d.significant exponent
    else scientific style d.significant exponent

end Decimal

/-- The text of a number of a format, by way of the same number in 64 bits. -/
def FloatFormat.writeDatum (style : Decimal.Style) (format : FloatFormat) : FloatDatum → Text
  | .nan => "nan".toList
  | .infinite negative => (if negative then ['-'] else []) ++ "inf".toList
  | .finite negative code =>
    (if negative then ['-'] else []) ++
      (Decimal.shortest (format.convert .double code)).write style

/-- The text of the number that bits mean. -/
def FloatFormat.writeBits (style : Decimal.Style) (format : FloatFormat) (bits : Nat) : Text :=
  format.writeDatum style (format.decode bits)

end BitLayout
