import PycListing.Instruction.Decode
import PycListing.Text.Blank

/-! # Listing rows

A unit's listing has one row per instruction, and an empty row ahead of each one that starts a
source line, the first instruction excepted.
-/

namespace PycListing

namespace Instruction

/-- The column of source lines, of some width; there is none of width zero. -/
def lineColumn (width : Nat) (startsLine : Option UInt32) : List String :=
  if width = 0 then []
  else match startsLine with
    | some line => [Text.padLeft width (toString line.toNat)]
    | none => [Text.padLeft width ""]

/-- The columns of the argument, none if there is no argument. -/
def argumentColumns (instruction : Instruction) : List String :=
  match instruction.arg with
  | none => []
  | some arg =>
    Text.padLeft 5 (toString arg.toNat) ::
      (if instruction.meaning.isEmpty then [] else ["(" ++ instruction.meaning ++ ")"])

/-- The columns of a row: source line, jump mark, offset, mnemonic, argument. -/
def columns (width : Nat) (instruction : Instruction) : List String :=
  lineColumn width instruction.startsLine ++
    ["   ", if instruction.isJumpTarget then ">>" else "  ",
     Text.padLeft 4 (toString instruction.offset), Text.padRight 20 instruction.mnemonic] ++
    instruction.argumentColumns

/-- The row of an instruction, less the blanks at its end. -/
def row (width : Nat) (instruction : Instruction) : String :=
  Text.trimEnd (" ".intercalate (instruction.columns width))

/-- The width of the column of source lines: that of the largest line, three at least, and zero
where no instruction starts a line. -/
def lineWidth (instructions : List Instruction) : Nat :=
  match (instructions.filterMap Instruction.startsLine).max? with
  | some line => max 3 (toString line.toNat).length
  | none => 0

/-- The rows of an instruction: its own, and an empty one before it if it starts a line. -/
def rowsOf (width : Nat) (instruction : Instruction) : List String :=
  if instruction.startsLine.isSome && instruction.offset > 0 then ["", instruction.row width]
  else [instruction.row width]

def rows (instructions : List Instruction) : List String :=
  let width := lineWidth instructions
  match instructions with
  | [] => []
  | first :: rest => first.row width :: rest.flatMap (rowsOf width)

/-- The listing of instructions, without a newline at its end. -/
def listing (instructions : List Instruction) : String :=
  "\n".intercalate (rows instructions)

end Instruction

def CodeUnit.instructionListing (unit : CodeUnit) (table : Opcode.Table) :
    Except DecodeError String :=
  (unit.decode table).map Instruction.listing

end PycListing
