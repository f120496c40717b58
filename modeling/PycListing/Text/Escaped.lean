import PycListing.Text.Number
import PycListing.Text.Unshown

/-! # Escaped text in diagnostics

A text between double quotes, for an error message. Characters that would not show are written by
their number in braces.
-/

namespace PycListing.Text

def escapedChar (c : Char) : String :=
  if c = '\x00' then "\\0"
  else if c = '\t' then "\\t"
  else if c = '\r' then "\\r"
  else if c = '\n' then "\\n"
  else if c = '"' then "\\\""
  else if c = '\\' then "\\\\"
  else if isUnshown c then "\\u\x7b" ++ hex 0 c.toNat ++ "\x7d"
  else c.toString

/-- A text between double quotes, its quotes, backslashes and unshown characters escaped. -/
def escaped (text : String) : String :=
  "\"" ++ String.join (text.toList.map escapedChar) ++ "\""

end PycListing.Text
