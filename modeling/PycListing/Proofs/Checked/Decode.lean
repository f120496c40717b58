import PycListing.Instruction.Row
import PycListing.Proofs.Checked.Stream
import PycListing.Proofs.Instruction.LineStarts

/-! # Decoding within limits

The steps that decode a unit, each taken within the words and lists of a machine: the sums that lead
to the target of a jump, the lines and addresses of the line table, the split of an index between
two kinds of variables. On a unit whose parts are short none of them stops
(`PycListing.Checked.decode_eq`).
-/

namespace PycListing

/-- A unit each of whose parts has fewer than `2 ^ 31` entries. -/
structure CodeUnit.Short (unit : CodeUnit) : Prop where
  code : unit.code.length < 2 ^ 31
  lineTable : unit.lineTable.length < 2 ^ 31
  consts : unit.consts.length < 2 ^ 31
  names : unit.names.length < 2 ^ 31
  varnames : unit.varnames.length < 2 ^ 31
  freevars : unit.freevars.length < 2 ^ 31
  cellvars : unit.cellvars.length < 2 ^ 31

namespace Checked

/-! ## Tables -/

/-- What an opcode is defined as, from the slots of a table. -/
def definition? (table : Opcode.Table) (opcode : UInt8) :
    Except Fault (Option Opcode.Definition) :=
  item table.slots.entries.toList opcode.toNat

def mnemonic (table : Opcode.Table) (opcode : UInt8) : Except Fault String := do
  match ← definition? table opcode with
  | some definition => pure definition.mnemonic
  | none => pure ("<" ++ toString opcode.toNat ++ ">")

/-- What the argument of an extending opcode contributes, as text of a word of 64 bits. -/
def extensionText? (table : Opcode.Table) (opcode : UInt8) (arg : UInt32) :
    Except Fault (Option String) :=
  if table.extender = some opcode then do
    let shifted ← word 64 (arg.toNat * 2 ^ table.extensionShift)
    pure (some (toString shifted))
  else pure none

theorem definition?_eq (table : Opcode.Table) (opcode : UInt8) :
    definition? table opcode = .ok (table.definition? opcode) := by
  refine item_eq ?_
  rw [Vector.getElem?_toList]
  exact Vector.getElem?_eq_getElem opcode.toNat_lt

theorem mnemonic_eq (table : Opcode.Table) (opcode : UInt8) :
    mnemonic table opcode = .ok (table.mnemonic opcode) := by
  rw [mnemonic, definition?_eq, bind_ok, Opcode.Table.mnemonic]
  cases table.definition? opcode <;> rfl

theorem extensionText?_eq (table : Opcode.Table) (opcode : UInt8) (arg : UInt32) :
    extensionText? table opcode arg = .ok (table.extensionText? opcode arg) := by
  have fits : arg.toNat * 2 ^ table.extensionShift < 2 ^ 64 := by
    have small : arg.toNat < 2 ^ 32 := arg.toNat_lt
    unfold Opcode.Table.extensionShift
    split <;> omega
  rw [extensionText?, Opcode.Table.extensionText?, word_eq fits]
  split <;> rfl

/-! ## Jumps -/

/-- The offset that a distance from the end of an instruction leads to. -/
def ahead (raw : RawInstruction) (distance : UInt32) : Except Fault Nat := do
  let stop ← add raw.offset raw.size
  add stop distance.toNat

/-- The offset that an instruction jumps to, if it jumps. -/
def jumpTarget? (table : Opcode.Table) (raw : RawInstruction) : Except Fault (Option Nat) :=
  match raw.arg with
  | none => pure none
  | some arg => do
    match ← definition? table raw.opcode with
    | none => pure none
    | some definition =>
      match definition.kind with
      | .relativeJump => some <$> ahead raw arg
      | .absoluteJump => pure (some arg.toNat)
      | _ => pure none

theorem ahead_eq {raw : RawInstruction} (near : raw.stop < 2 ^ 31) (distance : UInt32) :
    ahead raw distance = .ok (raw.stop + distance.toNat) := by
  have small : distance.toNat < 2 ^ 32 := distance.toNat_lt
  unfold RawInstruction.stop at near ⊢
  rw [ahead, add_eq (by omega), bind_ok, add_eq (by omega)]

theorem jumpTarget?_eq (table : Opcode.Table) {raw : RawInstruction} (near : raw.stop < 2 ^ 31) :
    jumpTarget? table raw = .ok (Instruction.jumpTarget? table raw) := by
  rw [jumpTarget?, Instruction.jumpTarget?]
  cases raw.arg with
  | none => rfl
  | some arg =>
      dsimp only
      rw [definition?_eq, bind_ok]
      cases table.definition? raw.opcode with
      | none => rfl
      | some definition =>
          dsimp only
          cases definition.kind with
          | relativeJump => rw [ahead_eq near]; rfl
          | _ => rfl

/-! ## Line tables -/

/-- The line starts from an address on, given the line that was started last. -/
def startsFrom (signed : Bool) (last : Option Int) (address : Nat) (line : Int) :
    List UInt8 → Except Fault (List (Nat × UInt32))
  | bytes :: lines :: rest => do
    let nextLine ← addSigned line (LineTable.increment signed lines)
    if bytes = 0 then startsFrom signed last address nextLine rest
    else do
      let nextAddress ← add address bytes.toNat
      let later ← startsFrom signed (some line) nextAddress nextLine rest
      pure (LineTable.entry last address line ++ later)
  | _ => pure (LineTable.entry last address line)

def lineStarts (unit : CodeUnit) (signed : Bool) : Except Fault (List (Nat × UInt32)) :=
  startsFrom signed none 0 unit.firstLine.toNat unit.lineTable

/-- What is left of a short table moves neither the address nor the line out of its word. -/
theorem startsFrom_eq (signed : Bool) (last : Option Int) {address : Nat} {line : Int}
    {table : List UInt8} (addresses : address + 256 * table.length < 2 ^ 64)
    (above : -2 ^ 63 ≤ line - 128 * table.length) (below : line + 256 * table.length < 2 ^ 63) :
    startsFrom signed last address line table =
      .ok (LineTable.startsFrom signed last address line table) := by
  fun_induction LineTable.startsFrom signed last address line table with
  | case1 last address line lines rest ih =>
      obtain ⟨least, most⟩ := LineTable.increment_bounds signed lines
      simp only [List.length_cons] at addresses above below
      rw [startsFrom, addSigned_eq (by omega) (by omega), bind_ok, if_pos rfl,
        ih (by omega) (by omega) (by omega)]
  | case2 last address line bytes lines rest moves ih =>
      obtain ⟨least, most⟩ := LineTable.increment_bounds signed lines
      have small : bytes.toNat < 256 := bytes.toNat_lt
      simp only [List.length_cons] at addresses above below
      rw [startsFrom, addSigned_eq (by omega) (by omega), bind_ok, if_neg moves,
        add_eq (by omega), bind_ok, ih (by omega) (by omega) (by omega)]
      rfl
  | case3 last address line table single =>
      rw [startsFrom]
      · rfl
      · exact single

theorem lineStarts_eq {unit : CodeUnit} (short : unit.Short) (signed : Bool) :
    lineStarts unit signed = .ok (unit.lineStarts signed) := by
  have lines := short.lineTable
  have first : unit.firstLine.toNat < 2 ^ 32 := unit.firstLine.toNat_lt
  refine startsFrom_eq signed none ?_ ?_ ?_ <;> omega

/-! ## Arguments -/

/-- The variable at an index into the cell variables followed by the free ones. The index into the
free ones is kept in a word of 32 bits. -/
def cellAt (unit : CodeUnit) (index : Nat) : Except Fault (Except DecodeFault String) :=
  if index < unit.cellvars.length then .ok <$> item unit.cellvars index
  else do
    let behind ← sub index unit.cellvars.length
    let narrow ← word 32 behind
    pure (Instruction.entryAt unit.freevars narrow .freeIndex)

/-- What an argument of a given kind denotes. -/
def argumentText (unit : CodeUnit) (raw : RawInstruction) (arg : UInt32) :
    Opcode.ArgumentKind → Except Fault (Except DecodeFault String)
  | .cell => cellAt unit arg.toNat
  | .relativeJump => do
    let target ← ahead raw arg
    pure (.ok ("to " ++ toString target))
  | kind => pure (Instruction.argumentText unit raw arg kind)

def meaning? (table : Opcode.Table) (unit : CodeUnit) (raw : RawInstruction) :
    Except Fault (Except DecodeFault String) :=
  match raw.arg with
  | none => pure (.ok "")
  | some arg => do
    match ← extensionText? table raw.opcode arg with
    | some text => pure (.ok text)
    | none =>
      match ← definition? table raw.opcode with
      | some definition => argumentText unit raw arg definition.kind
      | none => pure (.ok "")

theorem cellAt_eq (unit : CodeUnit) {index : Nat} (small : index < 2 ^ 32) :
    cellAt unit index = .ok (Instruction.cellAt unit index) := by
  rw [cellAt, Instruction.cellAt]
  split
  · rename_i inCells
    have found := List.getElem?_eq_getElem inCells
    rw [item_eq found, found]
    rfl
  · rename_i behind
    rw [sub_eq (Nat.not_lt.mp behind), bind_ok, word_eq (by omega), bind_ok,
      List.getElem?_eq_none (Nat.not_lt.mp behind)]
    rfl

theorem argumentText_eq (unit : CodeUnit) {raw : RawInstruction} (near : raw.stop < 2 ^ 31)
    (arg : UInt32) (kind : Opcode.ArgumentKind) :
    argumentText unit raw arg kind = .ok (Instruction.argumentText unit raw arg kind) := by
  cases kind with
  | cell => exact cellAt_eq unit arg.toNat_lt
  | relativeJump =>
      rw [argumentText, ahead_eq near]
      rfl
  | _ => rfl

theorem meaning?_eq (table : Opcode.Table) (unit : CodeUnit) {raw : RawInstruction}
    (near : raw.stop < 2 ^ 31) :
    meaning? table unit raw = .ok (Instruction.meaning? table unit raw) := by
  rw [meaning?, Instruction.meaning?]
  cases raw.arg with
  | none => rfl
  | some arg =>
      dsimp only
      rw [extensionText?_eq, bind_ok]
      cases table.extensionText? raw.opcode arg with
      | some text => rfl
      | none =>
          dsimp only
          rw [definition?_eq, bind_ok]
          cases table.definition? raw.opcode with
          | none => rfl
          | some definition => exact argumentText_eq unit near arg definition.kind

/-! ## Units -/

def ofRaw (table : Opcode.Table) (unit : CodeUnit) (starts : List (Nat × UInt32))
    (targets : List Nat) (raw : RawInstruction) :
    Except Fault (Except DecodeError Instruction) := do
  match ← meaning? table unit raw with
  | .error fault => pure (.error ⟨unit.name, raw.offset, fault⟩)
  | .ok meaning =>
    let mnemonic ← mnemonic table raw.opcode
    pure (.ok
      { mnemonic, meaning
        opcode := raw.opcode
        arg := raw.arg
        offset := raw.offset
        startsLine := starts.lookup raw.offset
        isJumpTarget := targets.contains raw.offset })

/-- The instructions of a unit in stream order. -/
def decode (unit : CodeUnit) (table : Opcode.Table) :
    Except Fault (Except DecodeError (List Instruction)) := do
  match ← split table unit.code with
  | .error offset => pure (.error ⟨unit.name, offset, .truncated⟩)
  | .ok raws =>
    let targets ← raws.mapM (jumpTarget? table)
    let starts ← lineStarts unit table.isWordcode
    each (ofRaw table unit starts (targets.filterMap id)) raws

theorem ofRaw_eq (table : Opcode.Table) (unit : CodeUnit) (starts : List (Nat × UInt32))
    (targets : List Nat) {raw : RawInstruction} (near : raw.stop < 2 ^ 31) :
    ofRaw table unit starts targets raw =
      .ok (Instruction.ofRaw table unit starts targets raw) := by
  rw [ofRaw, meaning?_eq table unit near, bind_ok, Instruction.ofRaw]
  cases Instruction.meaning? table unit raw with
  | error fault => rfl
  | ok meaning =>
      dsimp only
      rw [mnemonic_eq]
      rfl

/-- **A short unit is decoded within limits.** -/
theorem decode_eq {unit : CodeUnit} (short : unit.Short) (table : Opcode.Table) :
    decode unit table = .ok (unit.decode table) := by
  rw [decode, split_eq table short.code, bind_ok, CodeUnit.decode]
  cases parts : RawInstruction.split table unit.code with
  | error offset => rfl
  | ok raws =>
      have near : ∀ raw ∈ raws, raw.stop < 2 ^ 31 := by
        intro raw member
        obtain ⟨_, _, stands⟩ := (RawInstruction.cuts_of_split parts).exists_standsIn
          RawInstruction.clear_zero raw member
        exact Nat.lt_of_le_of_lt stands.fits short.code
      have targets := mapM_eq_ok (f := jumpTarget? table) (Instruction.jumpTarget? table)
        fun raw member => jumpTarget?_eq table (near raw member)
      dsimp only
      rw [targets, bind_ok, lineStarts_eq short, bind_ok, List.filterMap_map]
      exact each_eq fun raw member => ofRaw_eq table unit _ _ (near raw member)

end Checked

end PycListing
