/-! # Numbers in text

Unsigned decimal numerals as they are read, and the columns and hexadecimal words that listings
write.
-/

namespace PycListing.Text

/-- The value of a run of ASCII digits, most significant first, above the digits already read. -/
def digitsValue (value : Nat) : List Char → Nat
  | [] => value
  | c :: rest => digitsValue (10 * value + (c.toNat - '0'.toNat)) rest

/-- A numeral without its sign: one or more ASCII digits, of a value no greater than `limit`. -/
def plainNumeral? (limit : Nat) (digits : List Char) : Option Nat :=
  if !digits.isEmpty && digits.all Char.isDigit && digitsValue 0 digits ≤ limit then
    some (digitsValue 0 digits)
  else
    none

/-- Reads an unsigned numeral: an optional `+`, then one or more ASCII digits, leading zeros
allowed, of a value no greater than `limit`. -/
def numeral? (limit : Nat) : List Char → Option Nat
  | '+' :: digits => plainNumeral? limit digits
  | digits => plainNumeral? limit digits

/-- Spaces before a text, up to a width counted in characters. -/
def padLeft (width : Nat) (text : String) : String :=
  String.ofList (List.replicate (width - text.length) ' ') ++ text

/-- Spaces after a text, up to a width counted in characters. -/
def padRight (width : Nat) (text : String) : String :=
  text ++ String.ofList (List.replicate (width - text.length) ' ')

/-- A number in lower-case hexadecimal, with zeros before it up to a width. -/
def hex (width n : Nat) : String :=
  let digits := Nat.toDigits 16 n
  String.ofList (List.replicate (width - digits.length) '0' ++ digits)

/-- A number in decimal, with zeros before it up to a width. -/
def zeroPadded (width n : Nat) : String :=
  let digits := Nat.toDigits 10 n
  String.ofList (List.replicate (width - digits.length) '0' ++ digits)

end PycListing.Text
