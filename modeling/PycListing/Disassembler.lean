import PycListing.Code.Metadata
import PycListing.Instruction.Row
import PycListing.Traversal

/-! # Listings of a tree of units

A disassembler lists every unit of a tree in an order. How a unit's instructions and its metadata
are written is a parameter, and so are the errors of a unit that cannot be decoded. If any unit
fails to decode there is no listing at all.
-/

namespace PycListing

/-- How the parts of a listing are written. -/
structure Disassembler (ε : Type := DecodeError) where
  table : Opcode.Table
  decoder : CodeUnit → Opcode.Table → Except ε String
  /-- The metadata block of a unit, as a version lays it out. -/
  formatter : CodeUnit → Version → String

namespace Disassembler

variable {ε : Type}

/-- The disassembler of a table with the usual instruction rows and metadata. -/
def standard (table : Opcode.Table) : Disassembler where
  table := table
  decoder := CodeUnit.instructionListing
  formatter := CodeUnit.metadata

def metadata (disassembler : Disassembler ε) (unit : CodeUnit) : String :=
  disassembler.formatter unit disassembler.table.version

/-- Whether a unit's metadata precedes its instructions. In discovery order the module goes
without; in dependency order only a module that has no filename does. -/
def hasHeader (unit : CodeUnit) : TraversalOrder → Bool
  | .discovery => !unit.isModule
  | .dependency => !unit.isModule || !unit.filename.isEmpty

/-- What stands ahead of a unit's instructions. -/
def heading (disassembler : Disassembler ε) (order : TraversalOrder) (unit : CodeUnit) : String :=
  if hasHeader unit order then "\n" ++ disassembler.metadata unit ++ "\n" else ""

/-- The section of one unit: its heading, its instructions, a newline. -/
def unitSection (disassembler : Disassembler ε) (order : TraversalOrder) (unit : CodeUnit) :
    Except ε String :=
  (disassembler.decoder unit disassembler.table).map fun text =>
    disassembler.heading order unit ++ text ++ "\n"

/-- The listing of every unit of a tree, in an order. The error is that of the first unit in that
order that fails. -/
def render (disassembler : Disassembler ε) (order : TraversalOrder) (root : CodeUnit) :
    Except ε String :=
  ((root.inOrder order).mapM (disassembler.unitSection order)).map String.join

end Disassembler

end PycListing
