import PycListing.Proofs.Instruction.Extension
import PycListing.Proofs.Instruction.Split

/-! # Which units are rejected

The arguments of some instructions are indices into pools of their unit
(`PycListing.Opcode.Table.pool?`). Looking up a meaning fails with exactly those that have no entry
there (`PycListing.RawInstruction.meaning?_eq_error_iff`), and the entry is what the others mean
(`PycListing.RawInstruction.Selects.meaning?`). A unit is rejected because its stream breaks off, or
else because of the first instruction without an entry (`PycListing.CodeUnit.decode_exact`).
-/

namespace PycListing

/-- Entries that an argument selects from, and what is wrong with an index that has none. -/
structure Pool where
  entries : List String
  fault : Nat → DecodeFault

/-- What an argument of a kind selects from, if it is an index. -/
def CodeUnit.pool? (unit : CodeUnit) : Opcode.ArgumentKind → Option Pool
  | .constant => some ⟨unit.consts.map (Value.literal unit.era), .constantIndex⟩
  | .name => some ⟨unit.names, .nameIndex⟩
  | .variable => some ⟨unit.varnames, .variableIndex⟩
  | .cell =>
    some ⟨unit.cellvars ++ unit.freevars, fun index => .freeIndex (index - unit.cellvars.length)⟩
  | .comparison => some ⟨Opcode.comparisons, .comparisonIndex⟩
  | .absent | .number | .relativeJump | .absoluteJump | .callCounts => none

/-- What the argument of an opcode selects from. An extending opcode selects nothing, whatever its
kind. -/
def Opcode.Table.pool? (table : Table) (unit : CodeUnit) (opcode : UInt8) : Option Pool :=
  if table.extender = some opcode then none
  else (table.definition? opcode).bind fun definition => unit.pool? definition.kind

theorem Opcode.Table.pool?_eq_some_iff {table : Table} {unit : CodeUnit} {opcode : UInt8}
    {pool : Pool} : table.pool? unit opcode = some pool ↔ table.extender ≠ some opcode ∧
      ∃ kind, table.kind? opcode = some kind ∧ unit.pool? kind = some pool := by
  rw [Table.pool?]
  split
  · rename_i extender
    exact iff_of_false nofun fun selects => selects.1 extender
  · rename_i plain
    rw [and_iff_right plain, Table.kind?]
    cases table.definition? opcode with
    | none => exact iff_of_false nofun nofun
    | some definition =>
        simp only [Option.bind_some, Option.map_some, Option.some.injEq, exists_eq_left']

namespace Instruction

variable {unit : CodeUnit} {raw : RawInstruction} {arg : UInt32} {kind : Opcode.ArgumentKind}
  {pool : Pool}

theorem argumentText_of_pool (selects : unit.pool? kind = some pool) :
    argumentText unit raw arg kind = entryAt pool.entries arg.toNat pool.fault := by
  cases kind with
  | constant =>
      cases selects
      exact map_entryAt unit.consts arg.toNat .constantIndex (Value.literal unit.era)
  | cell =>
      cases selects
      exact cellAt_eq unit arg.toNat
  | _ => cases selects <;> rfl

theorem exists_argumentText (selects : unit.pool? kind = none) :
    ∃ text, argumentText unit raw arg kind = .ok text := by
  cases kind <;> cases selects <;> exact ⟨_, rfl⟩

end Instruction

namespace RawInstruction

variable {table : Opcode.Table} {unit : CodeUnit} {raw : RawInstruction} {pool other : Pool}
  {arg index : UInt32} {fault : DecodeFault}

/-- The argument of an instruction is an index into a pool. -/
structure Selects (table : Opcode.Table) (unit : CodeUnit) (raw : RawInstruction) (pool : Pool)
    (arg : UInt32) : Prop where
  pool : table.pool? unit raw.opcode = some pool
  arg : raw.arg = some arg

/-- There is an entry for the argument, if it selects one. -/
def Resolves (table : Opcode.Table) (unit : CodeUnit) (raw : RawInstruction) : Prop :=
  ∀ pool arg, raw.Selects table unit pool arg → arg.toNat < pool.entries.length

/-- There is no entry for the argument, and the fault says so. -/
def Misses (table : Opcode.Table) (unit : CodeUnit) (raw : RawInstruction) (fault : DecodeFault) :
    Prop :=
  ∃ pool arg, raw.Selects table unit pool arg ∧
    pool.entries.length ≤ arg.toNat ∧ fault = pool.fault arg.toNat

theorem Selects.unique (selects : raw.Selects table unit pool arg)
    (again : raw.Selects table unit other index) : pool = other ∧ arg = index :=
  ⟨Option.some.inj (selects.pool.symm.trans again.pool),
    Option.some.inj (selects.arg.symm.trans again.arg)⟩

theorem resolves_iff : raw.Resolves table unit ↔ ∀ fault, ¬raw.Misses table unit fault := by
  constructor
  · rintro resolves fault ⟨pool, arg, selects, behind, -⟩
    exact Nat.not_lt.mpr behind (resolves pool arg selects)
  · intro found pool arg selects
    exact Nat.not_le.mp fun behind => found _ ⟨pool, arg, selects, behind, rfl⟩

/-- An argument that selects an entry means that entry. -/
theorem Selects.meaning? (selects : raw.Selects table unit pool arg) :
    Instruction.meaning? table unit raw =
      Instruction.entryAt pool.entries arg.toNat pool.fault := by
  obtain ⟨plain, kind, known, own⟩ := Opcode.Table.pool?_eq_some_iff.mp selects.pool
  rw [Instruction.meaning?_of_kind selects.arg plain known]
  exact Instruction.argumentText_of_pool own

/-- Nothing fails without an index: not an instruction that extends the next one, an undefined
opcode, or an argument of another kind. -/
theorem exists_meaning? (free : ∀ pool arg, ¬raw.Selects table unit pool arg) :
    ∃ text, Instruction.meaning? table unit raw = .ok text := by
  cases given : raw.arg with
  | none => exact ⟨_, Instruction.meaning?_of_absent given⟩
  | some arg =>
      by_cases extender : table.extender = some raw.opcode
      · exact ⟨_, Instruction.meaning?_of_extender given extender⟩
      · cases known : table.kind? raw.opcode with
        | none => exact ⟨_, Instruction.meaning?_of_unknown given extender known⟩
        | some kind =>
            rw [Instruction.meaning?_of_kind given extender known]
            refine Instruction.exists_argumentText ?_
            refine Option.eq_none_iff_forall_ne_some.mpr fun pool own => free pool arg ⟨?_, given⟩
            exact Opcode.Table.pool?_eq_some_iff.mpr ⟨extender, kind, known, own⟩

theorem meaning?_eq_error_iff :
    Instruction.meaning? table unit raw = .error fault ↔ raw.Misses table unit fault := by
  by_cases selected : ∃ pool arg, raw.Selects table unit pool arg
  · obtain ⟨pool, arg, selects⟩ := selected
    rw [selects.meaning?, Instruction.entryAt_eq_error_iff]
    constructor
    · exact fun missing => ⟨pool, arg, selects, missing⟩
    · rintro ⟨other, index, again, missing⟩
      obtain ⟨rfl, rfl⟩ := selects.unique again
      exact missing
  · obtain ⟨text, found⟩ : ∃ text, Instruction.meaning? table unit raw = .ok text :=
      exists_meaning? fun pool arg selects => selected ⟨pool, arg, selects⟩
    rw [found]
    constructor
    · exact nofun
    · rintro ⟨pool, arg, selects, -⟩
      exact absurd ⟨pool, arg, selects⟩ selected

variable {starts : List (Nat × UInt32)} {targets : List Nat} {error : DecodeError}

theorem ofRaw_eq_error_iff :
    Instruction.ofRaw table unit starts targets raw = .error error ↔
      ∃ fault, raw.Misses table unit fault ∧ error = ⟨unit.name, raw.offset, fault⟩ := by
  simp only [← meaning?_eq_error_iff, Instruction.ofRaw]
  cases Instruction.meaning? table unit raw with
  | error fault => simp only [Except.error.injEq, exists_eq_left', eq_comm]
  | ok text => simp only [reduceCtorEq, false_and, exists_false]

theorem exists_ofRaw_iff :
    (∃ instruction, Instruction.ofRaw table unit starts targets raw = .ok instruction) ↔
      raw.Resolves table unit := by
  rw [exists_eq_ok_iff, resolves_iff]
  constructor
  · exact fun passed fault misses => passed _ (ofRaw_eq_error_iff.mpr ⟨fault, misses, rfl⟩)
  · rintro found error failed
    obtain ⟨fault, misses, -⟩ := ofRaw_eq_error_iff.mp failed
    exact found fault misses

end RawInstruction

namespace Opcode

/-- Whether a write defines no index below the opcodes that take an argument. -/
def leavesIndices (write : Write) : Bool :=
  Nat.ble 90 write.1.toNat || write.2.all fun definition => definition.kind == .absent

theorem leavesIndices_registeredSteps :
    registeredSteps.all (fun steps => (newestFirst steps).all leavesIndices) = true := by
  decide +kernel

/-- An opcode of a registered table that selects from a pool takes an argument. -/
theorem le_of_pool? {table : Table} (registered : table ∈ registry) {unit : CodeUnit}
    {opcode : UInt8} {pool : Pool} (selects : table.pool? unit opcode = some pool) :
    90 ≤ opcode := by
  obtain ⟨-, kind, known, own⟩ := Table.pool?_eq_some_iff.mp selects
  obtain ⟨definition, defined, rfl⟩ := Option.map_eq_some_iff.mp known
  have checked := check_of_definition? leavesIndices_registeredSteps registered defined
  rw [leavesIndices, Option.all_some, Bool.or_eq_true, Nat.ble_eq] at checked
  rcases checked with takes | none
  · exact UInt8.le_iff_toNat_le.mpr takes
  · rw [eq_of_beq none] at own
    cases own

end Opcode

namespace CodeUnit

variable {unit : CodeUnit} {table : Opcode.Table}

theorem exists_decode_iff :
    (∃ instructions, unit.decode table = .ok instructions) ↔
      ∃ raws, RawInstruction.Cuts table unit.code 0 0 raws ∧
        ∀ raw ∈ raws, raw.Resolves table unit := by
  rw [decode]
  cases parts : RawInstruction.split table unit.code with
  | error offset =>
      constructor
      · rintro ⟨instructions, decoded⟩
        cases decoded
      · rintro ⟨raws, cuts, -⟩
        cases parts.symm.trans (RawInstruction.split_eq_ok_iff.mpr cuts)
  | ok raws =>
      simp only [exists_mapM_eq_ok_iff, RawInstruction.exists_ofRaw_iff]
      constructor
      · exact fun resolved => ⟨raws, RawInstruction.cuts_of_split parts, resolved⟩
      · rintro ⟨others, cuts, resolved⟩
        cases parts.symm.trans (RawInstruction.split_eq_ok_iff.mpr cuts)
        exact resolved

theorem decode_eq_error_iff {error : DecodeError} :
    unit.decode table = .error error ↔
      (∃ offset, RawInstruction.BreaksOff table unit.code offset ∧
        error = ⟨unit.name, offset, .truncated⟩) ∨
      ∃ before raw after fault,
        RawInstruction.Cuts table unit.code 0 0 (before ++ raw :: after) ∧
        (∀ earlier ∈ before, earlier.Resolves table unit) ∧ raw.Misses table unit fault ∧
        error = ⟨unit.name, raw.offset, fault⟩ := by
  rw [decode]
  cases parts : RawInstruction.split table unit.code with
  | error offset =>
      -- No stream is both cut and broken off, so that no instruction is looked at.
      constructor
      · intro failed
        cases failed
        exact .inl ⟨offset, RawInstruction.split_eq_error_iff.mp parts, rfl⟩
      · rintro (⟨stop, breaks, rfl⟩ | ⟨before, raw, after, fault, cuts, -⟩)
        · cases parts.symm.trans (RawInstruction.split_eq_error_iff.mpr breaks)
          rfl
        · cases parts.symm.trans (RawInstruction.split_eq_ok_iff.mpr cuts)
  | ok raws =>
      simp only [mapM_eq_error_iff, RawInstruction.exists_ofRaw_iff,
        RawInstruction.ofRaw_eq_error_iff]
      constructor
      · rintro ⟨before, raw, after, rfl, resolved, fault, misses, same⟩
        have cuts := RawInstruction.cuts_of_split parts
        exact .inr ⟨before, raw, after, fault, cuts, resolved, misses, same⟩
      · rintro (⟨stop, breaks, -⟩ | ⟨before, raw, after, fault, cuts, resolved, misses, same⟩)
        · cases parts.symm.trans (RawInstruction.split_eq_error_iff.mpr breaks)
        · cases parts.symm.trans (RawInstruction.split_eq_ok_iff.mpr cuts)
          exact ⟨before, raw, after, rfl, resolved, fault, misses, same⟩

/-- **Exactly the ill-formed units are rejected.** A unit is decoded if and only if its stream is
cut into whole instructions and each argument that is an index, into the constants, the names, the
variables, the cell variables and the free ones after them, or the comparisons, has an entry there.
The decoded instructions are then those that the stream is cut into, and each of these entries is
what its instruction means. Otherwise the error is about the opcode that stands without all of its
operand, wherever there is one, and else about the first instruction without an entry. -/
theorem decode_exact (unit : CodeUnit) (table : Opcode.Table) :
    ((∃ instructions, unit.decode table = .ok instructions) ↔
      ∃ raws, RawInstruction.Cuts table unit.code 0 0 raws ∧
        ∀ raw ∈ raws, raw.Resolves table unit) ∧
    (∀ instructions, unit.decode table = .ok instructions →
      RawInstruction.Cuts table unit.code 0 0 (instructions.map (Instruction.raw table)) ∧
      ∀ instruction ∈ instructions, ∀ pool ∈ table.pool? unit instruction.opcode,
        ∀ arg ∈ instruction.arg, pool.entries[arg.toNat]? = some instruction.meaning) ∧
    (∀ error, unit.decode table = .error error ↔
      (∃ offset, RawInstruction.BreaksOff table unit.code offset ∧
        error = ⟨unit.name, offset, .truncated⟩) ∨
      ∃ before raw after fault,
        RawInstruction.Cuts table unit.code 0 0 (before ++ raw :: after) ∧
        (∀ earlier ∈ before, earlier.Resolves table unit) ∧ raw.Misses table unit fault ∧
        error = ⟨unit.name, raw.offset, fault⟩) ∧
    (table ∈ Opcode.registry → ∀ opcode,
      (table.extender = some opcode ↔ table.mnemonic opcode = Opcode.extenderName) ∧
      ∀ pool ∈ table.pool? unit opcode, 90 ≤ opcode) := by
  refine ⟨exists_decode_iff, ?_, fun error => decode_eq_error_iff, fun registered opcode => ?_⟩
  · intro instructions decoded
    obtain ⟨cuts, meant⟩ := Instruction.cuts_of_decode decoded
    refine ⟨cuts, fun instruction member pool selects arg given => ?_⟩
    have denotes := meant instruction member
    have chosen : (instruction.raw table).Selects table unit pool arg := ⟨selects, given⟩
    rw [chosen.meaning?] at denotes
    exact Instruction.entryAt_eq_ok_iff.mp denotes
  · exact ⟨Opcode.extender_eq_some_iff registered, fun pool => Opcode.le_of_pool? registered⟩

/-- A stream that breaks off is rejected for that, though a constant before it is missing. -/
example : { blank .legacy "f" with code := [100, 5, 0, 100, 0] }.decode
    (.ofSteps ⟨2, 7⟩ .cpython Opcode.Legacy.steps27) = .error ⟨"f", 3, .truncated⟩ := by
  decide +kernel

end CodeUnit

end PycListing
