import PycListing.Code.Literal
import PycListing.Instruction.LineTable
import PycListing.Instruction.Split

/-! # Decoded instructions

The instructions of a unit with their arguments looked up in the unit's pools, the source lines
they start, and the marks of those that some jump leads to.
-/

namespace PycListing

structure Instruction where
  mnemonic : String
  opcode : UInt8
  arg : Option UInt32
  /-- What the argument denotes, empty if there is nothing to add to its number. -/
  meaning : String
  offset : Nat
  startsLine : Option UInt32
  isJumpTarget : Bool
  deriving DecidableEq, Repr

inductive DecodeFault where
  | truncated
  | constantIndex (index : Nat)
  | nameIndex (index : Nat)
  | variableIndex (index : Nat)
  /-- There is no free variable of this index, counted after the cell variables. -/
  | freeIndex (index : Nat)
  | comparisonIndex (index : Nat)
  deriving DecidableEq, Repr

def DecodeFault.reason : DecodeFault → String
  | .truncated => "truncated instruction"
  | .constantIndex index => "constant index " ++ toString index ++ " out of range"
  | .nameIndex index => "name index " ++ toString index ++ " out of range"
  | .variableIndex index => "local index " ++ toString index ++ " out of range"
  | .freeIndex index => "free variable index " ++ toString index ++ " out of range"
  | .comparisonIndex index => "comparison " ++ toString index ++ " out of range"

/-- An instruction that cannot be decoded: the unit's name, the offset, and why. -/
structure DecodeError where
  unit : String
  offset : Nat
  fault : DecodeFault
  deriving DecidableEq, Repr

def DecodeError.message (error : DecodeError) : String :=
  "cannot decode `" ++ error.unit ++ "` at offset " ++ toString error.offset ++ ": " ++
    error.fault.reason

namespace Instruction

/-- The entry of a pool at an index, or the fault that it has none. -/
def entryAt {α : Type} (pool : List α) (index : Nat) (fault : Nat → DecodeFault) :
    Except DecodeFault α :=
  match pool[index]? with
  | some entry => .ok entry
  | none => .error (fault index)

/-- The variable at an index into the cell variables followed by the free ones. -/
def cellAt (unit : CodeUnit) (index : Nat) : Except DecodeFault String :=
  match unit.cellvars[index]? with
  | some name => .ok name
  | none => entryAt unit.freevars (index - unit.cellvars.length) .freeIndex

/-- What an argument of a given kind denotes. -/
def argumentText (unit : CodeUnit) (raw : RawInstruction) (arg : UInt32) :
    Opcode.ArgumentKind → Except DecodeFault String
  | .absent => .ok ""
  | .number => .ok ""
  | .absoluteJump => .ok ""
  | .constant => (entryAt unit.consts arg.toNat .constantIndex).map (Value.literal unit.era)
  | .name => entryAt unit.names arg.toNat .nameIndex
  | .variable => entryAt unit.varnames arg.toNat .variableIndex
  | .cell => cellAt unit arg.toNat
  | .comparison => entryAt Opcode.comparisons arg.toNat .comparisonIndex
  | .relativeJump => .ok ("to " ++ toString (raw.stop + arg.toNat))
  | .callCounts =>
    .ok (toString (arg.toNat % 256) ++ " positional, " ++ toString (arg.toNat / 256 % 256) ++
      " keyword pair")

/-- What the argument of an instruction denotes, empty if there is no argument, or nothing to say
of it. An extending opcode shows what it contributes. -/
def meaning? (table : Opcode.Table) (unit : CodeUnit) (raw : RawInstruction) :
    Except DecodeFault String :=
  match raw.arg with
  | none => .ok ""
  | some arg =>
    match table.extensionText? raw.opcode arg with
    | some text => .ok text
    | none =>
      match table.definition? raw.opcode with
      | some definition => argumentText unit raw arg definition.kind
      | none => .ok ""

/-- The offset that an instruction jumps to, if it jumps. -/
def jumpTarget? (table : Opcode.Table) (raw : RawInstruction) : Option Nat :=
  match raw.arg, table.definition? raw.opcode with
  | some arg, some definition =>
    match definition.kind with
    | .relativeJump => some (raw.stop + arg.toNat)
    | .absoluteJump => some arg.toNat
    | _ => none
  | _, _ => none

/-- One instruction decoded, given the line starts and jump targets of its unit. -/
def ofRaw (table : Opcode.Table) (unit : CodeUnit) (starts : List (Nat × UInt32))
    (targets : List Nat) (raw : RawInstruction) : Except DecodeError Instruction :=
  match meaning? table unit raw with
  | .error fault => .error ⟨unit.name, raw.offset, fault⟩
  | .ok meaning => .ok
    { mnemonic := table.mnemonic raw.opcode
      opcode := raw.opcode
      arg := raw.arg
      meaning := meaning
      offset := raw.offset
      startsLine := starts.lookup raw.offset
      isJumpTarget := targets.contains raw.offset }

end Instruction

/-- The instructions of a unit in stream order. A stream that does not split is an error before
any argument is looked up. -/
def CodeUnit.decode (unit : CodeUnit) (table : Opcode.Table) :
    Except DecodeError (List Instruction) :=
  match RawInstruction.split table unit.code with
  | .error offset => .error ⟨unit.name, offset, .truncated⟩
  | .ok raws =>
    let targets := raws.filterMap (Instruction.jumpTarget? table)
    raws.mapM (Instruction.ofRaw table unit (unit.lineStarts table.isWordcode) targets)

end PycListing
