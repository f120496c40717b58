import PycListing.Text.Number

/-! # Large integers in decimal

A magnitude is converted to decimal by limbs of nine decimal digits, least significant first. Each
further digit of the source's base multiplies the limbs by that base and adds the digit.
-/

namespace PycListing.Decimal

/-- One more than the largest limb. -/
def limbBase : Nat :=
  1000000000

/-- The limbs of a carry, none for zero. -/
def carryLimbs (carry : Nat) : List Nat :=
  if carry = 0 then [] else carry % limbBase :: carryLimbs (carry / limbBase)
termination_by carry
decreasing_by exact Nat.div_lt_self (Nat.pos_of_ne_zero ‹_›) (by decide)

/-- The limbs multiplied by a base, plus a carry. -/
def scaleAdd (base : Nat) : List Nat → Nat → List Nat
  | [], carry => carryLimbs carry
  | limb :: limbs, carry =>
    (limb * base + carry) % limbBase :: scaleAdd base limbs ((limb * base + carry) / limbBase)

/-- The limbs of the number whose digits in a base stand least significant first. -/
def limbsOfDigits (base : Nat) (digits : List Nat) : List Nat :=
  digits.foldr (fun digit limbs => scaleAdd base limbs digit) []

/-- The decimal text of limbs: the most significant one plain, the others nine digits wide. -/
def limbsText (limbs : List Nat) : String :=
  match limbs.reverse with
  | [] => "0"
  | top :: rest => toString top ++ String.join (rest.map (Text.zeroPadded 9))

/-- The decimal text of a signed number given by its digits in a base, least significant first.
Zero has no sign. -/
def signedText (negative : Bool) (base : Nat) (digits : List Nat) : String :=
  let text := limbsText (limbsOfDigits base digits)
  if negative && text != "0" then "-" ++ text else text

end PycListing.Decimal
