/-! # Double-precision numbers

A double is kept as its 64 bits. Its value is read off exactly, as an integer times a power of
two, and the double nearest to an exact quotient is found in integer arithmetic.
-/

namespace PycListing.Decimal

/-- A quotient rounded to the nearest integer, a half going to the even neighbour. -/
def roundDiv (numerator denominator : Nat) : Nat :=
  let quotient := numerator / denominator
  let rest := 2 * (numerator % denominator)
  if rest < denominator then quotient
  else if denominator < rest then quotient + 1
  else quotient + quotient % 2

/-- What 64 bits denote. -/
inductive Double where
  /-- `mantissa * 2 ^ exponent`, negated if `negative`. `narrow` tells that the next smaller
  magnitude is half as far away as the next larger one. -/
  | finite (negative : Bool) (mantissa : Nat) (exponent : Int) (narrow : Bool)
  | infinite (negative : Bool)
  | nan
  deriving DecidableEq, Repr

namespace Double

/-- The sign bit. -/
def signBit (bits : UInt64) : Bool :=
  bits >>> 63 != 0

/-- The double that 64 bits denote. -/
def ofBits (bits : UInt64) : Double :=
  let fraction : Nat := bits.toNat % Nat.pow 2 52
  let biased : Nat := bits.toNat / Nat.pow 2 52 % Nat.pow 2 11
  if biased = 2047 then
    if fraction = 0 then .infinite (signBit bits) else .nan
  else if biased = 0 then .finite (signBit bits) fraction (-1074) false
  else
    .finite (signBit bits) (Nat.pow 2 52 + fraction) ((biased : Int) - 1075)
      (fraction = 0 && biased != 1)

/-- The bits of positive infinity; those of a magnitude are always fewer. -/
def infinityBits : Nat :=
  2047 * Nat.pow 2 52

/-- Bits with a sign. -/
def withSign (negative : Bool) (magnitude : Nat) : UInt64 :=
  (if negative then Nat.pow 2 63 + magnitude else magnitude).toUInt64

/-- The bits of the double nearest to a positive quotient, without a sign. -/
def nearest (numerator denominator : Nat) : Nat :=
  let estimate : Int := (numerator.log2 : Int) - (denominator.log2 : Int)
  let reaches := denominator * Nat.pow 2 estimate.toNat ≤ numerator * Nat.pow 2 (-estimate).toNat
  let exponent := max ((if reaches then estimate else estimate - 1) - 52) (-1074)
  let mantissa :=
    roundDiv (numerator * Nat.pow 2 (-exponent).toNat) (denominator * Nat.pow 2 exponent.toNat)
  -- Above the subnormal range the leading bit of the mantissa adds one to the exponent's field.
  min ((exponent + 1074).toNat * Nat.pow 2 52 + mantissa) infinityBits

end Double

end PycListing.Decimal
