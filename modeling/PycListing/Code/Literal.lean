import PycListing.Code.Unit
import PycListing.Decimal.Written
import PycListing.Text.Quoted

/-! # Values as literals

The source-like text of a value. The era of the unit that holds a value decides the marks on
string literals and long integers, and the spelling of sets.
-/

namespace PycListing

namespace Value

/-- Floats are positional from `1e-4` up to, not including, `1e16`, and exponents have two digits
at least. -/
def floatStyle : Decimal.Style where
  firstPositional := -4
  lastPositional := 15
  exponentWidth := 2

def floatLiteral (bits : UInt64) : String :=
  floatStyle.double bits

/-- A part of a complex literal: a float's literal, less the fraction of a whole number. -/
def complexPart (bits : UInt64) : List Char :=
  let text := (floatLiteral bits).toList
  if text.drop (text.length - 2) = ['.', '0'] then text.take (text.length - 2) else text

/-- The literal of a complex number. A real part of positive zero is left out; otherwise the parts
are joined by `+` unless the imaginary part shows its own sign or is no number. -/
def complexLiteral (re im : UInt64) : String :=
  let imaginary := complexPart im
  if re = 0 then String.ofList imaginary ++ "j"
  else
    let joined := imaginary.head? = some '-' || Decimal.Double.ofBits im = .nan
    "(" ++ String.ofList (complexPart re) ++ (if joined then "" else "+") ++
      String.ofList imaginary ++ "j)"

def commaSeparated (items : List String) : String :=
  ", ".intercalate items

/-- The literal of a set with the given items. An empty one is written as a call in either era. -/
def setLiteral (era : Era) (items : List String) : String :=
  if items.isEmpty then "set()"
  else match era with
    | .modern => "\x7b" ++ commaSeparated items ++ "\x7d"
    | .legacy => "set([" ++ commaSeparated items ++ "])"

/-- The literal of a frozen set with the given items. -/
def frozensetLiteral (era : Era) (items : List String) : String :=
  if items.isEmpty then "frozenset()"
  else match era with
    | .modern => "frozenset(\x7b" ++ commaSeparated items ++ "\x7d)"
    | .legacy => "frozenset([" ++ commaSeparated items ++ "])"

/-- The literal of a tuple with the given items; a single item keeps its comma. -/
def tupleLiteral (items : List String) : String :=
  "(" ++ commaSeparated items ++ (if items.length = 1 then ",)" else ")")

mutual

/-- The text of a value in the conventions of an era. A nested unit is named, not written out. -/
def literal (era : Era) : Value → String
  | .null => "<NULL>"
  | .none => "None"
  | .bool true => "True"
  | .bool false => "False"
  | .stopIteration => "StopIteration"
  | .ellipsis => "Ellipsis"
  | .int n => toString n
  | .long text => if era = .legacy then text ++ "L" else text
  | .float bits => floatLiteral bits
  | .complex re im => complexLiteral re im
  | .bytes content => (if era = .modern then "b" else "") ++ Text.quoteBytes content
  | .str text => (if era = .legacy then "u" else "") ++ Text.quoteText text
  | .tuple items => tupleLiteral (literals era items)
  | .list items => "[" ++ commaSeparated (literals era items) ++ "]"
  | .dict pairs => "\x7b" ++ commaSeparated (pairLiterals era pairs) ++ "\x7d"
  | .set items => setLiteral era (literals era items)
  | .frozenset items => frozensetLiteral era (literals era items)
  | .code unit =>
    "<code object " ++ unit.name ++ ", file \"" ++ unit.filename ++ "\", line " ++
      toString unit.firstLine.toNat ++ ">"

def literals (era : Era) : List Value → List String
  | [] => []
  | value :: rest => literal era value :: literals era rest

def pairLiterals (era : Era) : List (Value × Value) → List String
  | [] => []
  | (key, value) :: rest =>
    (literal era key ++ ": " ++ literal era value) :: pairLiterals era rest

end

end Value

end PycListing
