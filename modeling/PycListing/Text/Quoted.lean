import PycListing.Text.Number

/-! # Quoted literals

Text and byte strings as literals. The quote is an apostrophe unless the string holds an
apostrophe and no double quote. A backslash and the quote itself are escaped by a backslash, the
newline, carriage return and tab by a letter, and every other character that may not stand as
itself by its two hexadecimal digits.
-/

namespace PycListing.Text

/-- The quote that encloses a string of these characters. -/
def quoteFor (cs : List Char) : Char :=
  if cs.contains '\'' && !cs.contains '"' then '"' else '\''

/-- One character inside a literal; `plain` tells which characters may stand as themselves. -/
def escapeChar (plain : Char → Bool) (quote c : Char) : List Char :=
  if c = '\\' then ['\\', '\\']
  else if c = '\n' then ['\\', 'n']
  else if c = '\r' then ['\\', 'r']
  else if c = '\t' then ['\\', 't']
  else if c = quote then ['\\', c]
  else if plain c then [c]
  else '\\' :: 'x' :: (hex 2 c.toNat).toList

def quoteChars (plain : Char → Bool) (cs : List Char) : List Char :=
  let quote := quoteFor cs
  quote :: (cs.flatMap (escapeChar plain quote) ++ [quote])

/-- In a text literal every character but the ASCII controls stands as itself. -/
def plainInText (c : Char) : Bool :=
  0x20 ≤ c.toNat && c.toNat != 0x7f

/-- In a byte literal only the printable ASCII characters stand as themselves. -/
def plainInBytes (c : Char) : Bool :=
  0x20 ≤ c.toNat && c.toNat < 0x7f

def quoteText (text : String) : String :=
  String.ofList (quoteChars plainInText text.toList)

/-- The literal of a byte string, each byte taken as the character of its number. -/
def quoteBytes (bytes : List UInt8) : String :=
  String.ofList (quoteChars plainInBytes (bytes.map fun b => Char.ofNat b.toNat))

end PycListing.Text
