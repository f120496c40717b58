import PycListing.Decimal.Binary64
import PycListing.Text.Blank
import PycListing.Text.Number

/-! # Reading decimals

Decimal text to the nearest double. A number has digits, at most one point with digits on one side
at least, and an optional exponent; infinities and NaN are spelled out in any case.
-/

namespace PycListing.Decimal

/-- The number `digits * 10 ^ exponent`, digits most significant first. -/
structure Numeral where
  digits : List Char
  exponent : Int

/-- The exponent part that ends a number: nothing, or `e` with an optional sign and digits. -/
def exponentPart? : List Char → Option Int
  | [] => some 0
  | mark :: rest =>
    if mark.toLower != 'e' then none
    else
      let (negative, digits) : Bool × List Char := match rest with
        | '-' :: digits => (true, digits)
        | '+' :: digits => (false, digits)
        | digits => (false, digits)
      if digits.isEmpty || !digits.all Char.isDigit then none
      else
        let size : Int := Text.digitsValue 0 digits
        some (if negative then -size else size)

/-- A number without a sign. -/
def numeral? (text : List Char) : Option Numeral :=
  let whole := text.takeWhile Char.isDigit
  let (fraction, rest) : List Char × List Char := match text.dropWhile Char.isDigit with
    | '.' :: rest => (rest.takeWhile Char.isDigit, rest.dropWhile Char.isDigit)
    | rest => ([], rest)
  if whole.isEmpty && fraction.isEmpty then none
  else
    (exponentPart? rest).map fun exponent =>
      ⟨whole ++ fraction, exponent - (fraction.length : Int)⟩

/-- The magnitude of the double nearest to a number. Leading digits decide alone where the number
is far outside the range of doubles, so that no power of ten out of proportion is formed. -/
def Numeral.magnitude (number : Numeral) : Nat :=
  let coefficient := Text.digitsValue 0 number.digits
  let reach := (number.digits.length : Int) + number.exponent
  if coefficient = 0 ∨ reach < -330 then 0
  else if number.exponent > 310 then Double.infinityBits
  else Double.nearest (coefficient * Nat.pow 10 number.exponent.toNat)
      (Nat.pow 10 (-number.exponent).toNat)

/-- The bits that stand for a text behind a sign. There is one NaN, whatever its sign. -/
def signedBits? (negative : Bool) (text : List Char) : Option UInt64 :=
  let name := String.ofList (text.map Char.toLower)
  if name = "inf" ∨ name = "infinity" then some (Double.withSign negative Double.infinityBits)
  else if name = "nan" then some (Double.withSign false (Double.infinityBits + Nat.pow 2 51))
  else (numeral? text).map fun number => Double.withSign negative number.magnitude

/-- Reads a double, white space around it allowed. -/
def readDouble? (text : String) : Option UInt64 :=
  match Text.trimChars text.toList with
  | '-' :: rest => signedBits? true rest
  | '+' :: rest => signedBits? false rest
  | rest => signedBits? false rest

end PycListing.Decimal
