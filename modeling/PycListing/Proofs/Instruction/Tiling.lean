import PycListing.Instruction.Decode
import PycListing.Opcode.Registry
import PycListing.Proofs.Fallible
import PycListing.Proofs.LittleEndian
import Mathlib.Data.List.Basic

/-! # Instructions tile their stream

Decoding cuts a stream into instructions without a gap or an overlap. What each of them is cut from,
given what extends its argument, is the relation `PycListing.RawInstruction.StandsIn`; a whole
stream is cut one instruction after the other (`PycListing.RawInstruction.Cuts`), and the extension
of an argument never reaches the bits of its operand. So no byte of the stream is lost but the
operands that word code gives to instructions without an argument
(`PycListing.CodeUnit.decode_tiles`).
-/

namespace PycListing

namespace Opcode

theorem hasArgument_iff {opcode : UInt8} : hasArgument opcode = true ↔ 90 ≤ opcode :=
  decide_eq_true_iff

namespace Table

/-- How many bytes an instruction takes. -/
def width (table : Table) (opcode : UInt8) : Nat :=
  if table.isWordcode then 2 else if hasArgument opcode then 3 else 1

theorem width_of_words {table : Table} (words : table.isWordcode = true) (opcode : UInt8) :
    table.width opcode = 2 :=
  if_pos words

theorem width_of_bytes {table : Table} (bytes : table.isWordcode = false) (opcode : UInt8) :
    table.width opcode = if hasArgument opcode then 3 else 1 :=
  if_neg (Bool.eq_false_iff.mp bytes)

theorem width_eq (table : Table) (opcode : UInt8) :
    table.width opcode = if table.isWordcode then 2 else if 90 ≤ opcode then 3 else 1 := by
  simp only [width, hasArgument_iff]

/-- The operand of an argument is as wide as what it is shifted by to extend another one. -/
theorem width_of_hasArgument {table : Table} {opcode : UInt8} (takes : hasArgument opcode = true) :
    8 * (table.width opcode - 1) = table.extensionShift := by
  rw [width, extensionShift, if_pos takes]
  split <;> rfl

end Table

end Opcode

namespace RawInstruction

variable {table : Opcode.Table} {code : List UInt8} {held : UInt32} {raw : RawInstruction}
  {raws : List RawInstruction}

/-- The bytes of an instruction after its opcode. -/
def operand (code : List UInt8) (raw : RawInstruction) : List UInt8 :=
  (code.drop (raw.offset + 1)).take (raw.size - 1)

/-- An instruction is cut from the bytes at its offset, given what extends its argument. -/
structure StandsIn (table : Opcode.Table) (code : List UInt8) (held : UInt32)
    (raw : RawInstruction) : Prop where
  opcode : code[raw.offset]? = some raw.opcode
  size : raw.size = table.width raw.opcode
  fits : raw.stop ≤ code.length
  arg : raw.arg = if Opcode.hasArgument raw.opcode then
    some ((littleEndian (raw.operand code)).toUInt32 ||| held) else none

/-- The rest of a stream, from an offset on, is cut into instructions. -/
inductive Cuts (table : Opcode.Table) (code : List UInt8) :
    Nat → UInt32 → List RawInstruction → Prop
  | done {held : UInt32} : Cuts table code code.length held []
  | next {held : UInt32} {raw : RawInstruction} {raws : List RawInstruction}
      (stands : raw.StandsIn table code held)
      (more : Cuts table code raw.stop (raw.extension table) raws) :
      Cuts table code raw.offset held (raw :: raws)

/-! ## Splitting cuts -/

/-- An instruction made of the bytes that come next. -/
theorem standsIn_ofOperand {offset size value : Nat} {opcode : UInt8} {bytes rest : List UInt8}
    (front : code.drop offset = opcode :: (bytes ++ rest)) (width : table.width opcode = size)
    (full : bytes.length + 1 = size)
    (denotes : Opcode.hasArgument opcode = true → littleEndian bytes = value) :
    (ofOperand offset size opcode value held).StandsIn table code held := by
  have within : offset + 1 + bytes.length + rest.length = code.length := by
    have lengths := congrArg List.length front
    rw [List.length_drop, List.length_cons, List.length_append] at lengths
    omega
  have behind : code.drop (offset + 1) = bytes ++ rest := by
    rw [← List.drop_drop, front]
    rfl
  have own : (ofOperand offset size opcode value held).operand code = bytes := by
    change (code.drop (offset + 1)).take (size - 1) = bytes
    rw [behind, ← full, Nat.add_sub_cancel, List.take_left]
  refine ⟨?_, width.symm, ?_, ?_⟩
  · change code[offset]? = some opcode
    rw [← List.head?_drop, front, List.head?_cons]
  · change offset + size ≤ code.length
    omega
  · rw [own]
    change (if Opcode.hasArgument opcode then _ else _) = _
    by_cases takes : Opcode.hasArgument opcode = true
    · rw [if_pos takes, denotes takes]
      exact (if_pos takes).symm
    · rw [if_neg takes]
      exact (if_neg takes).symm

/-- An instruction made of the bytes that come next is cut off, and the rest after it. -/
theorem cuts_ofOperand {offset size value : Nat} {opcode : UInt8} {bytes rest : List UInt8}
    (front : code.drop offset = opcode :: (bytes ++ rest)) (width : table.width opcode = size)
    (full : bytes.length + 1 = size)
    (denotes : Opcode.hasArgument opcode = true → littleEndian bytes = value)
    (more : offset + size ≤ code.length → code.drop (offset + size) = rest →
      Cuts table code (offset + size)
        ((ofOperand offset size opcode value held).extension table) raws) :
    Cuts table code offset held (ofOperand offset size opcode value held :: raws) := by
  have stands : (ofOperand offset size opcode value held).StandsIn table code held :=
    standsIn_ofOperand front width full denotes
  have behind : code.drop (offset + size) = rest := by
    have shorter := congrArg (List.drop size) front
    rwa [List.drop_drop, ← full, List.drop_succ_cons, List.drop_left, full] at shorter
  exact .next stands (more stands.fits behind)

theorem cuts_of_nothing_left {offset : Nat} (within : offset ≤ code.length)
    (front : code.drop offset = []) : Cuts table code offset held [] := by
  have short := List.drop_eq_nil_iff.mp front
  obtain rfl : offset = code.length := by omega
  exact .done

theorem cuts_of_splitWords (words : table.isWordcode = true) {offset : Nat} {bytes : List UInt8}
    (within : offset ≤ code.length) (front : code.drop offset = bytes)
    (split : splitWords table offset held bytes = .ok raws) :
    Cuts table code offset held raws := by
  fun_induction splitWords table offset held bytes generalizing raws with
  | case1 offset held =>
      cases split
      exact cuts_of_nothing_left within front
  | case2 => cases split
  | case3 offset held opcode operand rest raw =>
      rename_i ih
      obtain ⟨others, found, rfl⟩ := exists_of_map_eq_ok split
      have width := Opcode.Table.width_of_words words opcode
      have read : code.drop offset = opcode :: ([operand] ++ rest) := front
      exact cuts_ofOperand read width rfl (fun _ => rfl)
        fun fits behind => ih fits behind found

theorem cuts_of_splitBytes (bytewise : table.isWordcode = false) {offset : Nat} {bytes : List UInt8}
    (within : offset ≤ code.length) (front : code.drop offset = bytes)
    (split : splitBytes table offset held bytes = .ok raws) :
    Cuts table code offset held raws := by
  fun_induction splitBytes table offset held bytes generalizing raws with
  | case1 offset held =>
      cases split
      exact cuts_of_nothing_left within front
  | case2 offset held opcode takes low high rest raw =>
      rename_i ih
      obtain ⟨others, found, rfl⟩ := exists_of_map_eq_ok split
      have width := (Opcode.Table.width_of_bytes bytewise opcode).trans (if_pos takes)
      have read : code.drop offset = opcode :: ([low, high] ++ rest) := front
      exact cuts_ofOperand read width rfl (fun _ => rfl)
        fun fits behind => ih fits behind found
  | case3 => cases split
  | case4 offset held opcode rest plain raw =>
      rename_i ih
      obtain ⟨others, found, rfl⟩ := exists_of_map_eq_ok split
      have width := (Opcode.Table.width_of_bytes bytewise opcode).trans (if_neg plain)
      have read : code.drop offset = opcode :: ([] ++ rest) := front
      exact cuts_ofOperand read width rfl (fun _ => rfl)
        fun fits behind => ih fits behind found

theorem cuts_of_split (split : RawInstruction.split table code = .ok raws) :
    Cuts table code 0 0 raws := by
  rw [RawInstruction.split] at split
  cases words : table.isWordcode with
  | true =>
      rw [if_pos words] at split
      exact cuts_of_splitWords words (Nat.zero_le _) rfl split
  | false =>
      rw [if_neg (Bool.eq_false_iff.mp words)] at split
      exact cuts_of_splitBytes words (Nat.zero_le _) rfl split

end RawInstruction

/-! ## Operands and what extends them -/

namespace RawInstruction

variable {table : Opcode.Table} {code : List UInt8} {held : UInt32} {raw : RawInstruction}
  {raws : List RawInstruction}

theorem StandsIn.length_operand (stands : raw.StandsIn table code held) :
    (raw.operand code).length = raw.size - 1 := by
  have fits := stands.fits
  rw [operand, List.length_take, List.length_drop]
  unfold stop at fits
  omega

/-- The stream goes on with the opcode, the operand, and what comes after them. -/
theorem StandsIn.drop_eq (stands : raw.StandsIn table code held) :
    code.drop raw.offset = raw.opcode :: (raw.operand code ++ code.drop raw.stop) := by
  have sized : raw.stop = raw.offset + 1 + (raw.size - 1) := by
    have size := stands.size
    unfold Opcode.Table.width at size
    unfold stop
    split at size
    · omega
    · split at size <;> omega
  obtain ⟨within, own⟩ := List.getElem?_eq_some_iff.mp stands.opcode
  rw [List.drop_eq_getElem_cons within, own, sized, operand, ← List.drop_drop (i := raw.size - 1),
    List.take_append_drop]

/-- The bits that an operand stands in are clear. -/
def Clear (table : Opcode.Table) (held : UInt32) : Prop :=
  2 ^ table.extensionShift ∣ held.toNat

theorem clear_zero : Clear table 0 :=
  Nat.dvd_zero _

/-- What an extending instruction adds to the next argument. -/
theorem toNat_extension {arg : UInt32} (extender : table.extender = some raw.opcode)
    (given : raw.arg = some arg) :
    (raw.extension table).toNat = arg.toNat * 2 ^ table.extensionShift % 2 ^ 32 := by
  have shifted : table.extensionShift.toUInt32.toNat % 32 = table.extensionShift := by
    unfold Opcode.Table.extensionShift
    split <;> rfl
  rw [extension, given]
  dsimp only
  rw [if_pos extender, UInt32.toNat_shiftLeft, shifted, Nat.shiftLeft_eq]

theorem extension_of_not_extends (stops : ¬(table.extender = some raw.opcode ∧ raw.arg.isSome)) :
    raw.extension table = 0 := by
  unfold extension
  split
  · rename_i arg given
    exact if_neg fun extender => stops ⟨extender, Option.isSome_iff_exists.mpr ⟨arg, given⟩⟩
  · rfl

theorem clear_extension : Clear table (raw.extension table) := by
  by_cases extending : table.extender = some raw.opcode ∧ raw.arg.isSome
  · obtain ⟨extender, hasArg⟩ := extending
    obtain ⟨arg, given⟩ := Option.isSome_iff_exists.mp hasArg
    rw [Clear, toNat_extension extender given]
    have wide : 2 ^ table.extensionShift ∣ 2 ^ 32 := by
      refine Nat.pow_dvd_pow 2 ?_
      unfold Opcode.Table.extensionShift
      split <;> decide
    exact (Nat.dvd_mod_iff wide).mpr (Nat.dvd_mul_left _ _)
  · rw [extension_of_not_extends extending]
    exact clear_zero

/-- An operand and what extends it share no bit, so that they are joined by adding them. -/
theorem toNat_join {value : Nat} (small : value < 2 ^ table.extensionShift)
    (clear : Clear table held) : (value.toUInt32 ||| held).toNat = value + held.toNat := by
  have narrow : 2 ^ table.extensionShift ≤ 2 ^ 32 := by
    refine Nat.pow_le_pow_right (by decide) ?_
    unfold Opcode.Table.extensionShift
    split <;> decide
  have own : value.toUInt32.toNat = value := by
    rw [Nat.toUInt32_eq, UInt32.toNat_ofNat']
    exact Nat.mod_eq_of_lt (Nat.lt_of_lt_of_le small narrow)
  obtain ⟨high, above⟩ := clear
  rw [UInt32.toNat_or, own, above, Nat.or_comm, ← Nat.two_pow_add_eq_or_of_lt small, Nat.add_comm]

theorem StandsIn.operand_lt (stands : raw.StandsIn table code held)
    (takes : Opcode.hasArgument raw.opcode = true) :
    littleEndian (raw.operand code) < 2 ^ table.extensionShift := by
  have small := littleEndian_lt (raw.operand code)
  rwa [stands.length_operand, stands.size, show 256 = 2 ^ 8 from rfl, ← Nat.pow_mul,
    Opcode.Table.width_of_hasArgument takes] at small

theorem StandsIn.isSome_arg (stands : raw.StandsIn table code held) :
    raw.arg.isSome ↔ 90 ≤ raw.opcode := by
  rw [stands.arg, ← Opcode.hasArgument_iff]
  by_cases takes : Opcode.hasArgument raw.opcode = true <;> simp [takes]

/-- An argument is the operand and what extends it. -/
theorem StandsIn.exists_arg (stands : raw.StandsIn table code held) (clear : Clear table held)
    (takes : Opcode.hasArgument raw.opcode = true) :
    ∃ arg, raw.arg = some arg ∧ arg.toNat = littleEndian (raw.operand code) + held.toNat :=
  ⟨_, stands.arg.trans (if_pos takes), toNat_join (stands.operand_lt takes) clear⟩

/-! ## What is held along a stream -/

/-- What the instructions before an argument extend it by. -/
def heldAfter (table : Opcode.Table) (held : UInt32) (before : List RawInstruction) : UInt32 :=
  (before.getLast?.map (extension table)).getD held

theorem heldAfter_concat (before : List RawInstruction) (last : RawInstruction) :
    heldAfter table held (before ++ [last]) = last.extension table := by
  rw [heldAfter, List.getLast?_concat]
  rfl

theorem heldAfter_cons (first : RawInstruction) (others : List RawInstruction) :
    heldAfter table held (first :: others) = heldAfter table (first.extension table) others := by
  rw [heldAfter, heldAfter, List.getLast?_cons, Option.map_some, Option.getD_some, Option.getD_map]

/-! ## What a cut stream looks like -/

/-- What extends an argument in a cut stream leaves the bits of the operand clear. -/
theorem Cuts.exists_standsIn {offset : Nat} (cuts : Cuts table code offset held raws)
    (clear : Clear table held) :
    ∀ raw ∈ raws, ∃ held, Clear table held ∧ raw.StandsIn table code held := by
  induction cuts with
  | done => exact List.forall_mem_nil _
  | next stands _ ih =>
      exact List.forall_mem_cons.mpr ⟨⟨_, clear, stands⟩, ih clear_extension⟩

/-- Each instruction starts where the one before it stops, and the last one stops at the end. -/
theorem Cuts.start_eq {offset : Nat} (cuts : Cuts table code offset held raws) :
    (raws[0]?.map RawInstruction.offset).getD code.length = offset ∧
      ∀ index raw, raws[index]? = some raw →
        (raws[index + 1]?.map RawInstruction.offset).getD code.length = raw.stop := by
  induction cuts with
  | done => exact ⟨rfl, nofun⟩
  | next stands more ih =>
      obtain ⟨first, others⟩ := ih
      refine ⟨rfl, fun index raw member => ?_⟩
      cases index with
      | zero =>
          cases member
          exact first
      | succ index => exact others index raw member

theorem Cuts.offset_of_words (words : table.isWordcode = true) {offset : Nat}
    (cuts : Cuts table code offset held raws) {index : Nat} (member : raws[index]? = some raw) :
    raw.offset = offset + 2 * index := by
  induction cuts generalizing index with
  | done => cases member
  | next stands more ih =>
      cases index with
      | zero =>
          cases member
          rfl
      | succ index =>
          have later := ih member
          rw [stop, stands.size, Opcode.Table.width_of_words words] at later
          omega

/-- The bytes that an instruction without extensions would be cut from. -/
def written (raw : RawInstruction) : List UInt8 :=
  raw.opcode :: match raw.arg with
    | some arg => littleEndianBytes 2 arg.toNat
    | none => []

theorem StandsIn.written_eq (bytewise : table.isWordcode = false)
    (stands : raw.StandsIn table code held) (clear : Clear table held) :
    raw.written = raw.opcode :: raw.operand code := by
  have width := Opcode.Table.width_of_bytes bytewise raw.opcode
  have length := stands.length_operand
  rw [stands.size, width] at length
  by_cases takes : Opcode.hasArgument raw.opcode = true
  · obtain ⟨arg, given, value⟩ := stands.exists_arg clear takes
    obtain ⟨high, above⟩ := clear
    have shift : table.extensionShift = 16 := if_neg (Bool.eq_false_iff.mp bytewise)
    rw [if_pos takes] at length
    rw [shift] at above
    have low : littleEndianBytes 2 arg.toNat =
        littleEndianBytes 2 (littleEndian (raw.operand code)) := by
      rw [value, above]
      exact littleEndianBytes_add_mul 2 _ _
    have two : (raw.operand code).length = 2 := length
    rw [written, given]
    dsimp only
    rw [low, ← two, littleEndianBytes_littleEndian]
  · rw [if_neg takes] at length
    rw [written, stands.arg, if_neg takes, List.eq_nil_of_length_eq_zero length]

/-- Instructions written one after the other give the stream back. -/
theorem Cuts.flatMap_written (bytewise : table.isWordcode = false) {offset : Nat}
    (cuts : Cuts table code offset held raws) (clear : Clear table held) :
    raws.flatMap written = code.drop offset := by
  induction cuts with
  | done => rw [List.flatMap_nil, List.drop_length]
  | next stands more ih =>
      rw [List.flatMap_cons, ih clear_extension, stands.written_eq bytewise clear, stands.drop_eq,
        List.cons_append]

/-- The byte after an opcode of word code is the low byte of its argument. -/
theorem StandsIn.low_byte (words : table.isWordcode = true) (stands : raw.StandsIn table code held)
    (clear : Clear table held) (takes : Opcode.hasArgument raw.opcode = true) :
    ∃ arg, raw.arg = some arg ∧ code[raw.offset + 1]? = some arg.toUInt8 := by
  obtain ⟨arg, given, value⟩ := stands.exists_arg clear takes
  obtain ⟨high, above⟩ := clear
  have shift : table.extensionShift = 8 := if_pos words
  have length := stands.length_operand
  rw [stands.size, Opcode.Table.width_of_words words] at length
  obtain ⟨byte, only⟩ := List.length_eq_one_iff.mp length
  refine ⟨arg, given, ?_⟩
  have behind : code.drop (raw.offset + 1) = byte :: code.drop raw.stop := by
    rw [← List.drop_drop, stands.drop_eq, only]
    rfl
  have low : arg.toUInt8 = byte := by
    have denoted : littleEndian [byte] = byte.toNat := rfl
    have small : byte.toNat < 256 := byte.toNat_lt
    rw [shift] at above
    rw [← UInt8.toNat_inj, UInt32.toNat_toUInt8, value, only, above, denoted]
    omega
  rw [← List.head?_drop, behind, low, List.head?_cons]

end RawInstruction

/-! ## Decoding keeps what was cut -/

namespace Instruction

variable {table : Opcode.Table} {unit : CodeUnit} {instructions : List Instruction}

/-- What an instruction was decoded from. -/
def raw (table : Opcode.Table) (instruction : Instruction) : RawInstruction where
  offset := instruction.offset
  size := table.width instruction.opcode
  opcode := instruction.opcode
  arg := instruction.arg

/-- Decoding names an instruction after its opcode, and adds what its argument denotes, the source
line that it starts, and whether it is a target. -/
theorem eq_of_ofRaw {starts : List (Nat × UInt32)} {targets : List Nat} {raw : RawInstruction}
    {instruction : Instruction} (decoded : ofRaw table unit starts targets raw = .ok instruction) :
    ∃ meaning, meaning? table unit raw = .ok meaning ∧ instruction =
      { mnemonic := table.mnemonic raw.opcode, opcode := raw.opcode, arg := raw.arg,
        meaning := meaning, offset := raw.offset, startsLine := starts.lookup raw.offset,
        isJumpTarget := targets.contains raw.offset } := by
  cases found : meaning? table unit raw with
  | error fault =>
      rw [ofRaw, found] at decoded
      cases decoded
  | ok meaning =>
      rw [ofRaw, found] at decoded
      exact ⟨meaning, rfl, (Except.ok.inj decoded).symm⟩

/-- The targets of the jumps among some instructions. -/
def targets (table : Opcode.Table) (instructions : List Instruction) : List Nat :=
  (instructions.map (raw table)).filterMap (jumpTarget? table)

/-- Decoded instructions are those that the stream splits into, each of them decoded. -/
theorem ofRaw_of_decode (decoded : unit.decode table = .ok instructions) :
    RawInstruction.split table unit.code = .ok (instructions.map (raw table)) ∧
      ∀ instruction ∈ instructions, ofRaw table unit (unit.lineStarts table.isWordcode)
        (targets table instructions) (instruction.raw table) = .ok instruction := by
  cases parts : RawInstruction.split table unit.code with
  | error offset =>
      rw [CodeUnit.decode, parts] at decoded
      cases decoded
  | ok raws =>
      rw [CodeUnit.decode, parts] at decoded
      have own : ∀ cut ∈ raws, ∀ instruction,
          ofRaw table unit (unit.lineStarts table.isWordcode)
            (raws.filterMap (jumpTarget? table)) cut = .ok instruction →
          instruction.raw table = cut := by
        intro cut member instruction passed
        obtain ⟨held, -, stands⟩ := (RawInstruction.cuts_of_split parts).exists_standsIn
          RawInstruction.clear_zero cut member
        obtain ⟨meaning, -, rfl⟩ := eq_of_ofRaw passed
        rw [Instruction.raw, ← stands.size]
      have same : instructions.map (raw table) = raws := map_eq_of_mapM decoded own
      refine ⟨congrArg Except.ok same.symm, fun instruction member => ?_⟩
      obtain ⟨cut, inRaws, passed⟩ := exists_of_mem_mapM decoded member
      rw [targets, same, own cut inRaws instruction passed]
      exact passed

theorem cuts_of_decode (decoded : unit.decode table = .ok instructions) :
    RawInstruction.Cuts table unit.code 0 0 (instructions.map (raw table)) ∧
      ∀ instruction ∈ instructions,
        meaning? table unit (instruction.raw table) = .ok instruction.meaning := by
  obtain ⟨split, each⟩ := ofRaw_of_decode decoded
  refine ⟨RawInstruction.cuts_of_split split, fun instruction member => ?_⟩
  obtain ⟨meaning, meant, same⟩ := eq_of_ofRaw (each instruction member)
  rw [meant, same]

/-- Where the instruction of an index starts. Behind the last instruction the stream ends. -/
def startAt (code : List UInt8) (instructions : List Instruction) (index : Nat) : Nat :=
  (instructions[index]?.map Instruction.offset).getD code.length

/-- The bytes of an instruction as byte code has them: the opcode, and the low half of the argument
if there is one. -/
def written (instruction : Instruction) : List UInt8 :=
  instruction.opcode :: match instruction.arg with
    | some arg => littleEndianBytes 2 arg.toNat
    | none => []

theorem startAt_eq (table : Opcode.Table) (code : List UInt8) (instructions : List Instruction)
    (index : Nat) :
    startAt code instructions index =
      ((instructions.map (raw table))[index]?.map RawInstruction.offset).getD code.length := by
  rw [startAt, List.getElem?_map, Option.map_map]
  rfl

theorem exists_standsIn_of_decode (decoded : unit.decode table = .ok instructions) :
    ∀ instruction ∈ instructions, ∃ held, RawInstruction.Clear table held ∧
      (instruction.raw table).StandsIn table unit.code held := by
  intro instruction member
  exact (cuts_of_decode decoded).1.exists_standsIn RawInstruction.clear_zero _
    (List.mem_map_of_mem member)

end Instruction

/-- **Instructions tile the stream.** Each one starts where the one before it stops, the first one
at the start of the stream, and the last one stops at its end. Byte code is given back by writing
the instructions one after the other. In word code the byte after an opcode is the low byte of the
argument, if there is one. -/
theorem CodeUnit.decode_tiles {table : Opcode.Table} {unit : CodeUnit}
    {instructions : List Instruction} (decoded : unit.decode table = .ok instructions) :
    Instruction.startAt unit.code instructions 0 = 0 ∧
    (∀ (index : Nat) (instruction : Instruction), instructions[index]? = some instruction →
      (instruction.arg.isSome ↔ 90 ≤ instruction.opcode) ∧
      Instruction.startAt unit.code instructions (index + 1) =
        instruction.offset +
          (if table.isWordcode then 2 else if 90 ≤ instruction.opcode then 3 else 1)) ∧
    (table.isWordcode = false → instructions.flatMap Instruction.written = unit.code) ∧
    (table.isWordcode = true →
      ∀ (index : Nat) (instruction : Instruction), instructions[index]? = some instruction →
      instruction.offset = 2 * index ∧ unit.code[2 * index]? = some instruction.opcode ∧
      (90 ≤ instruction.opcode → ∃ arg, instruction.arg = some arg ∧
        unit.code[2 * index + 1]? = some arg.toUInt8)) := by
  obtain ⟨cuts, -⟩ := Instruction.cuts_of_decode decoded
  have starts := cuts.start_eq
  have cutFrom : ∀ {index : Nat} {instruction : Instruction},
      instructions[index]? = some instruction →
      (instructions.map (Instruction.raw table))[index]? = some (instruction.raw table) := by
    intro index instruction member
    rw [List.getElem?_map, member]
    rfl
  refine ⟨?_, fun index instruction member => ⟨?_, ?_⟩, fun bytewise => ?_,
    fun words index instruction member => ?_⟩
  · rw [Instruction.startAt_eq table]
    exact starts.1
  · obtain ⟨held, -, stands⟩ :=
      Instruction.exists_standsIn_of_decode decoded instruction (List.mem_of_getElem? member)
    exact stands.isSome_arg
  · rw [Instruction.startAt_eq table, starts.2 index _ (cutFrom member)]
    exact congrArg _ (Opcode.Table.width_eq _ _)
  · have whole := cuts.flatMap_written bytewise RawInstruction.clear_zero
    rwa [List.flatMap_map] at whole
  · obtain ⟨held, clear, stands⟩ :=
      Instruction.exists_standsIn_of_decode decoded instruction (List.mem_of_getElem? member)
    have place : instruction.offset = 0 + 2 * index := cuts.offset_of_words words (cutFrom member)
    rw [Nat.zero_add] at place
    refine ⟨place, ?_, fun takes => ?_⟩
    · rw [← place]
      exact stands.opcode
    · rw [← place]
      exact stands.low_byte words clear (Opcode.hasArgument_iff.mpr takes)

/-- A call whose argument is extended, in byte code. -/
def CodeUnit.callingBytes : CodeUnit :=
  { CodeUnit.blank .modern "f" with code := [144, 1, 0, 131, 2, 1, 83] }

def Instruction.ofCallingBytes : List Instruction :=
  [{ mnemonic := "EXTENDED_ARG", opcode := 144, arg := some 1, meaning := "65536", offset := 0,
     startsLine := some 0, isJumpTarget := false },
   { mnemonic := "CALL_FUNCTION", opcode := 131, arg := some 65794,
     meaning := "2 positional, 1 keyword pair", offset := 3, startsLine := none,
     isJumpTarget := false },
   { mnemonic := "RETURN_VALUE", opcode := 83, arg := none, meaning := "", offset := 6,
     startsLine := none, isJumpTarget := false }]

/-- A call whose argument is extended four times, beyond its 32 bits, in word code. -/
def CodeUnit.callingWords : CodeUnit :=
  { CodeUnit.blank .modern "f" with code := [144, 9, 144, 1, 144, 2, 144, 3, 131, 4, 83, 0] }

/-- An extending instruction of word code, with what it shows. -/
def Instruction.extending (offset : Nat) (arg : UInt32) (shown : String) : Instruction where
  mnemonic := "EXTENDED_ARG"
  opcode := 144
  arg := some arg
  meaning := shown
  offset := offset
  startsLine := if offset = 0 then some 0 else none
  isJumpTarget := false

def Instruction.ofCallingWords : List Instruction :=
  [extending 0 9 "2304", extending 2 2305 "590080", extending 4 590082 "151060992",
   extending 6 151060995 "38671614720",
   { mnemonic := "CALL_FUNCTION", opcode := 131, arg := some 16909060, meaning := "", offset := 8,
     startsLine := none, isJumpTarget := false },
   { mnemonic := "RETURN_VALUE", opcode := 83, arg := none, meaning := "", offset := 10,
     startsLine := none, isJumpTarget := false }]

theorem CodeUnit.decode_callingBytes :
    callingBytes.decode (.ofSteps ⟨3, 4⟩ .cpython Opcode.Modern.steps34) =
      .ok Instruction.ofCallingBytes := by
  decide +kernel

theorem CodeUnit.decode_callingWords :
    callingWords.decode (.ofSteps ⟨3, 6⟩ .cpython Opcode.Modern.steps36) =
      .ok Instruction.ofCallingWords := by
  decide +kernel

theorem CodeUnit.decode_tiles_calling :
    callingBytes.decode (.ofSteps ⟨3, 4⟩ .cpython Opcode.Modern.steps34) =
        .ok Instruction.ofCallingBytes ∧
      Instruction.ofCallingBytes.flatMap Instruction.written = callingBytes.code ∧
      callingWords.decode (.ofSteps ⟨3, 6⟩ .cpython Opcode.Modern.steps36) =
        .ok Instruction.ofCallingWords ∧
      callingWords.code[8]? = some 131 ∧
      callingWords.code[9]? = some (16909060 : UInt32).toUInt8 := by
  obtain ⟨-, -, bytes, -⟩ := decode_tiles decode_callingBytes
  obtain ⟨-, -, -, words⟩ := decode_tiles decode_callingWords
  obtain ⟨-, opcode, low⟩ := words rfl 4 _ rfl
  obtain ⟨arg, given, own⟩ := low (by decide)
  cases given
  exact ⟨decode_callingBytes, bytes rfl, decode_callingWords, opcode, own⟩

end PycListing
