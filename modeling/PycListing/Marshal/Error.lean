import PycListing.Text.Escaped
import PycListing.Text.Number

/-! # Errors of the marshal reader

Each error carries the offset in the stream that it points at, and its cause.
-/

namespace PycListing.Marshal

inductive Field where
  | code
  | consts
  | names
  | varnames
  | freevars
  | cellvars
  | filename
  | name
  | lineTable
  deriving DecidableEq, Repr

/-- The name that diagnostics give to a field. -/
def Field.text : Field → String
  | .code => "co_code"
  | .consts => "co_consts"
  | .names => "co_names"
  | .varnames => "co_varnames"
  | .freevars => "co_freevars"
  | .cellvars => "co_cellvars"
  | .filename => "co_filename"
  | .name => "co_name"
  | .lineTable => "co_lnotab"

/-- What is wrong with an object that can be told apart from its neighbours. -/
inductive Defect where
  | negativeLength
  | invalidUtf8
  | floatLiteral (text : String)
  /-- A digit of a long integer that is no number below `2 ^ 15`. -/
  | longDigit (digit : Int)
  /-- A field of a unit, or an item of it, that has the wrong type. -/
  | fieldType (field : Field) (found : String)
  | incompleteUnit
  deriving DecidableEq, Repr

def Defect.text : Defect → String
  | .negativeLength => "negative length"
  | .invalidUtf8 => "invalid UTF-8"
  | .floatLiteral text => "float literal " ++ Text.escaped text
  | .longDigit digit => "long digit " ++ toString digit
  | .fieldType field found => field.text ++ " is a " ++ found
  | .incompleteUnit => "incomplete code object"

/-- Why reading an object fails. -/
inductive Cause where
  | truncated
  /-- The byte, less its flag, is the tag of no object. -/
  | unknownTag (byte : UInt8)
  /-- The object referred to does not exist, or is not complete yet. -/
  | badReference (index : Nat)
  | malformed (defect : Defect)
  | tooDeep
  deriving DecidableEq, Repr

/-- A failed reading: where, and why. -/
structure Error where
  offset : Nat
  cause : Cause
  deriving DecidableEq, Repr

def Error.message (error : Error) : String :=
  let place := " at offset " ++ toString error.offset
  match error.cause with
  | .truncated => "truncated marshal data" ++ place
  | .unknownTag byte => "unknown marshal type code 0x" ++ Text.hex 2 byte.toNat ++ place
  | .badReference index => "bad marshal reference " ++ toString index ++ place
  | .malformed defect => "malformed marshal data" ++ place ++ ": " ++ defect.text
  | .tooDeep => "marshal data nested too deeply" ++ place

end PycListing.Marshal
