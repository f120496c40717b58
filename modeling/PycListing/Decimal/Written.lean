import PycListing.Decimal.Shortest
import PycListing.Text.Number

/-! # Written decimals

Positional and scientific notation of a run of digits, the choice between them, and a double
written to a fixed number of places.
-/

namespace PycListing.Decimal

/-- Digits with the point after the first `point` of them, zeros filling any gap. At least one
digit stands on either side of the point. -/
def positional (digits : List Char) (point : Int) : List Char :=
  if point ≤ 0 then
    '0' :: '.' :: (List.replicate (-point).toNat '0' ++ digits)
  else if digits.length ≤ point.toNat then
    digits ++ List.replicate (point.toNat - digits.length) '0' ++ ['.', '0']
  else
    digits.take point.toNat ++ '.' :: digits.drop point.toNat

/-- How doubles are written: which decimal exponents are written positionally, and the least
number of digits of a written exponent. -/
structure Style where
  firstPositional : Int
  lastPositional : Int
  exponentWidth : Nat

/-- Digits in scientific notation. The exponent always has a sign, and the point is left out
after a single digit. -/
def Style.scientific (style : Style) (digits : List Char) (exponent : Int) : List Char :=
  let fraction := match digits.drop 1 with
    | [] => []
    | more => '.' :: more
  let sign := if exponent < 0 then '-' else '+'
  digits.take 1 ++ fraction ++ 'e' :: sign ::
    (Text.zeroPadded style.exponentWidth exponent.natAbs).toList

/-- A shortest decimal, in the notation that its exponent calls for. -/
def Style.shortest (style : Style) (decimal : Shortest) : List Char :=
  let digits := Nat.toDigits 10 decimal.coefficient
  let exponent := decimal.exponent + (digits.length : Int) - 1
  if style.firstPositional ≤ exponent ∧ exponent ≤ style.lastPositional then
    positional digits (exponent + 1)
  else
    style.scientific digits exponent

/-- The text of a double: as few digits as denote it, `inf` and `nan` for what has none. -/
def Style.double (style : Style) (bits : UInt64) : String :=
  let signed (negative : Bool) (text : List Char) : String :=
    String.ofList (if negative then '-' :: text else text)
  match Double.ofBits bits with
  | .nan => "nan"
  | .infinite negative => signed negative ['i', 'n', 'f']
  | .finite negative mantissa exponent narrow =>
    if mantissa = 0 then signed negative ['0', '.', '0']
    else signed negative (style.shortest (Decimal.shortest mantissa exponent narrow))

/-- A quotient of natural numbers to a fixed number of places, a half going to the even
neighbour. No point is written for zero places. -/
def fixed (places numerator denominator : Nat) : String :=
  let scaled := roundDiv (numerator * Nat.pow 10 places) denominator
  let whole := toString (scaled / Nat.pow 10 places)
  if places = 0 then whole
  else whole ++ "." ++ Text.zeroPadded places (scaled % Nat.pow 10 places)

/-- The exact value of a finite double to a fixed number of places. -/
def fixedDouble (places : Nat) (bits : UInt64) : String :=
  match Double.ofBits bits with
  | .finite negative mantissa exponent _ =>
    (if negative then "-" else "") ++
      fixed places (mantissa * Nat.pow 2 exponent.toNat) (Nat.pow 2 (-exponent).toNat)
  | .infinite negative => if negative then "-inf" else "inf"
  | .nan => "NaN"

end PycListing.Decimal
