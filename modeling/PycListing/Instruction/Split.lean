import PycListing.Cursor
import PycListing.Opcode.Table

/-! # Splitting an instruction stream

Two encodings exist. In word code every instruction is an opcode and one byte; otherwise an opcode
is followed by a two-byte little-endian operand exactly when it takes an argument. The argument of
an extending opcode is shifted and joined to the argument of the next instruction.
-/

namespace PycListing

/-- An instruction cut out of the stream, its argument not yet interpreted. -/
structure RawInstruction where
  offset : Nat
  size : Nat
  opcode : UInt8
  /-- The operand joined with what the instructions before it extend it by. -/
  arg : Option UInt32
  deriving DecidableEq, Repr

namespace RawInstruction

def stop (raw : RawInstruction) : Nat :=
  raw.offset + raw.size

/-- An instruction of an operand, which counts only if the opcode takes an argument. -/
def ofOperand (offset size : Nat) (opcode : UInt8) (operand : Nat) (held : UInt32) :
    RawInstruction where
  offset := offset
  size := size
  opcode := opcode
  arg := if Opcode.hasArgument opcode then some (operand.toUInt32 ||| held) else none

/-- What an instruction extends the next argument by; the bits that leave a 32-bit word are
lost. -/
def extension (table : Opcode.Table) (raw : RawInstruction) : UInt32 :=
  match raw.arg with
  | some arg =>
    if table.extender = some raw.opcode then arg <<< table.extensionShift.toUInt32 else 0
  | none => 0

/-- Splits word code. The error is the offset of an opcode whose operand is missing. -/
def splitWords (table : Opcode.Table) (offset : Nat) (held : UInt32) :
    List UInt8 → Except Nat (List RawInstruction)
  | [] => .ok []
  | [_] => .error offset
  | opcode :: operand :: rest =>
    let raw := ofOperand offset 2 opcode operand.toNat held
    (splitWords table raw.stop (raw.extension table) rest).map (raw :: ·)

/-- Splits a stream of instructions of one or three bytes. The error is the offset of an opcode
whose operand is incomplete. -/
def splitBytes (table : Opcode.Table) (offset : Nat) (held : UInt32) :
    List UInt8 → Except Nat (List RawInstruction)
  | [] => .ok []
  | opcode :: rest =>
    if Opcode.hasArgument opcode then
      match rest with
      | low :: high :: rest =>
        let raw := ofOperand offset 3 opcode (littleEndian [low, high]) held
        (splitBytes table raw.stop (raw.extension table) rest).map (raw :: ·)
      | _ => .error offset
    else
      let raw := ofOperand offset 1 opcode 0 held
      (splitBytes table raw.stop (raw.extension table) rest).map (raw :: ·)

/-- Splits an instruction stream in the encoding of a table. -/
def split (table : Opcode.Table) (code : List UInt8) : Except Nat (List RawInstruction) :=
  if table.isWordcode then splitWords table 0 0 code else splitBytes table 0 0 code

end RawInstruction

end PycListing
