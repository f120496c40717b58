import PycListing.Code.Unit

/-! # Line tables

A unit's line table is a sequence of pairs of a byte increment and a line increment. It is read as
the list of the offsets at which a source line starts. Word code has signed line increments.
-/

namespace PycListing

namespace LineTable

def increment (signed : Bool) (b : UInt8) : Int :=
  if signed then b.toInt8.toInt else b.toNat

/-- The entry for an address, none if the line is the one started last or is no 32-bit number. -/
def entry (last : Option Int) (address : Nat) (line : Int) : List (Nat × UInt32) :=
  if last = some line then []
  else if 0 ≤ line ∧ line < Nat.pow 2 32 then [(address, line.toNat.toUInt32)]
  else []

/-- The line starts from an address on, given the line that was started last. A byte without its
partner at the end of the table is ignored. -/
def startsFrom (signed : Bool) (last : Option Int) (address : Nat) (line : Int) :
    List UInt8 → List (Nat × UInt32)
  | bytes :: lines :: rest =>
    if bytes = 0 then startsFrom signed last address (line + increment signed lines) rest
    else
      entry last address line ++
        startsFrom signed (some line) (address + bytes.toNat) (line + increment signed lines) rest
  | _ => entry last address line

end LineTable

/-- The offsets at which a source line starts, with the lines, in the order of the line table. -/
def CodeUnit.lineStarts (unit : CodeUnit) (signed : Bool) : List (Nat × UInt32) :=
  LineTable.startsFrom signed none 0 unit.firstLine.toNat unit.lineTable

end PycListing
