import PycListing.Proofs.Instruction.Rejection

/-! # Jump marks agree with jump arguments

An instruction is marked exactly if some jump of its unit leads to its offset
(`PycListing.Instruction.isJumpTarget_iff`). Where a jump leads is a relation between the jump and
an offset (`PycListing.Instruction.LeadsTo`). What a relative jump shows is the offset that it leads
to (`PycListing.Instruction.leadsTo_iff_shown`), so that the marks of a listing can be checked
against its arguments. A jump to where no instruction starts leaves no mark, and no jump is an
error (`PycListing.CodeUnit.isJumpTarget_exact`).
-/

namespace PycListing

namespace Opcode

/-- Whether a write defines no extending opcode that is a relative jump. -/
def leavesJumps (write : Write) : Bool :=
  !write.2.any fun definition =>
    definition.mnemonic == extenderName && definition.kind == .relativeJump

theorem leavesJumps_registeredSteps :
    registeredSteps.all (fun steps => (newestFirst steps).all leavesJumps) = true := by
  decide +kernel

/-- The extending opcode of a registered table is no relative jump. -/
theorem kind?_ne_relativeJump_of_extender {table : Table} (registered : table ∈ registry)
    {opcode : UInt8} (extender : table.extender = some opcode) :
    table.kind? opcode ≠ some .relativeJump := by
  intro jumps
  obtain ⟨definition, defined, kind⟩ := Option.map_eq_some_iff.mp jumps
  have named := (extender_eq_some_iff registered).mp extender
  rw [Table.mnemonic, defined] at named
  dsimp only at named
  have checked := check_of_definition? leavesJumps_registeredSteps registered defined
  rw [leavesJumps, Option.any_some, named, kind, beq_self_eq_true, beq_self_eq_true] at checked
  cases checked

end Opcode

namespace RawInstruction

/-- No argument of a jump is looked up. -/
theorem resolves_of_jump {table : Opcode.Table} {unit : CodeUnit} {raw : RawInstruction}
    (jumps : (table.kind? raw.opcode).any Opcode.ArgumentKind.isJump = true) :
    raw.Resolves table unit := by
  intro pool arg selects
  obtain ⟨-, kind, known, own⟩ := Opcode.Table.pool?_eq_some_iff.mp selects.pool
  rw [known, Option.any_some] at jumps
  cases kind with
  | relativeJump | absoluteJump => cases own
  | _ => cases jumps

end RawInstruction

namespace Instruction

variable {table : Opcode.Table} {unit : CodeUnit} {instructions : List Instruction}
  {instruction jump : Instruction} {offset : Nat}

/-! ## Where jumps lead -/

/-- Where a jump leads. The distance of a relative jump counts from the end of the jump. -/
inductive LeadsTo (table : Opcode.Table) (jump : Instruction) : Nat → Prop where
  | relative {distance : UInt32} (kind : table.kind? jump.opcode = some .relativeJump)
      (given : jump.arg = some distance) :
      LeadsTo table jump (jump.offset + table.width jump.opcode + distance.toNat)
  | absolute {target : UInt32} (kind : table.kind? jump.opcode = some .absoluteJump)
      (given : jump.arg = some target) : LeadsTo table jump target.toNat

theorem jumpTarget?_eq_some_iff :
    jumpTarget? table (jump.raw table) = some offset ↔ jump.LeadsTo table offset := by
  constructor
  · intro found
    unfold jumpTarget? at found
    split at found
    · rename_i distance definition given defined
      have own : table.kind? jump.opcode = some definition.kind := by
        rw [Opcode.Table.kind?, show table.definition? jump.opcode = _ from defined]
        rfl
      split at found
      · rename_i kind
        cases found
        exact .relative (own.trans (congrArg some kind)) given
      · rename_i kind
        cases found
        exact .absolute (own.trans (congrArg some kind)) given
      · cases found
    · cases found
  · intro leads
    cases leads with
    | relative kind given =>
        obtain ⟨definition, defined, own⟩ := Option.map_eq_some_iff.mp kind
        simp only [jumpTarget?, raw, given, defined, own, RawInstruction.stop]
    | absolute kind given =>
        obtain ⟨definition, defined, own⟩ := Option.map_eq_some_iff.mp kind
        simp only [jumpTarget?, raw, given, defined, own]

theorem LeadsTo.unique {other : Nat} (leads : jump.LeadsTo table offset)
    (again : jump.LeadsTo table other) : offset = other :=
  Option.some.inj
    ((jumpTarget?_eq_some_iff.mpr leads).symm.trans (jumpTarget?_eq_some_iff.mpr again))

theorem mem_targets_iff :
    offset ∈ targets table instructions ↔ ∃ jump ∈ instructions, jump.LeadsTo table offset := by
  simp only [targets, List.mem_filterMap, List.mem_map, exists_exists_and_eq_and,
    jumpTarget?_eq_some_iff]

/-- The marked instructions are those that some jump leads to. -/
theorem isJumpTarget_iff (decoded : unit.decode table = .ok instructions)
    (member : instruction ∈ instructions) :
    instruction.isJumpTarget = true ↔
      ∃ jump ∈ instructions, jump.LeadsTo table instruction.offset := by
  have passed := (ofRaw_of_decode decoded).2 instruction member
  obtain ⟨meaning, -, same⟩ := eq_of_ofRaw passed
  have mark := congrArg isJumpTarget same
  dsimp only [raw] at mark
  rw [mark, List.contains_iff_mem, mem_targets_iff]

/-! ## What jumps show -/

/-- A relative jump with an argument shows where it leads, unless it extends the next argument. -/
theorem meaning_of_relativeJump (decoded : unit.decode table = .ok instructions)
    (member : jump ∈ instructions) (plain : table.extender ≠ some jump.opcode)
    (kind : table.kind? jump.opcode = some .relativeJump) :
    jump.meaning = match jump.arg with
      | some distance =>
        "to " ++ toString (jump.offset + table.width jump.opcode + distance.toNat)
      | none => "" := by
  have meant := (cuts_of_decode decoded).2 jump member
  cases given : jump.arg with
  | none => exact Except.ok.inj (meant.symm.trans (meaning?_of_absent given))
  | some distance =>
      have own : (jump.raw table).arg = some distance := given
      rw [meaning?_of_kind own plain kind] at meant
      exact (Except.ok.inj meant).symm

/-- A relative jump leads to the offset that it shows, and an absolute one to its argument. -/
theorem leadsTo_iff_shown (decoded : unit.decode table = .ok instructions)
    (plain : ∀ opcode, table.extender = some opcode → table.kind? opcode ≠ some .relativeJump)
    (member : jump ∈ instructions) :
    jump.LeadsTo table offset ↔
      (table.kind? jump.opcode = some .relativeJump ∧ jump.meaning = "to " ++ toString offset) ∨
      (table.kind? jump.opcode = some .absoluteJump ∧
        ∃ target, jump.arg = some target ∧ target.toNat = offset) := by
  have shows (kind : table.kind? jump.opcode = some .relativeJump) :=
    meaning_of_relativeJump decoded member (fun extender => plain _ extender kind) kind
  constructor
  · intro leads
    cases leads with
    | relative kind given =>
        have shown := shows kind
        rw [given] at shown
        exact .inl ⟨kind, shown⟩
    | absolute kind given => exact .inr ⟨kind, _, given, rfl⟩
  · rintro (⟨kind, text⟩ | ⟨kind, target, given, rfl⟩)
    · have shown := shows kind
      cases given : jump.arg with
      | none =>
          rw [given, text] at shown
          have empty := congrArg String.toList shown
          rw [String.toList_append] at empty
          cases empty
      | some distance =>
          rw [given, text] at shown
          have digits := congrArg String.toList ((String.append_right_inj "to ").mp shown)
          rw [Text.toList_toString_nat, Text.toList_toString_nat] at digits
          rw [Text.toDigits_injective digits]
          exact .relative kind given
    · exact .absolute kind given

end Instruction

namespace CodeUnit

/-- Decoding does not depend on the arguments of jumps. -/
theorem exists_decode_iff_of_jumps (unit : CodeUnit) (table : Opcode.Table) :
    (∃ instructions, unit.decode table = .ok instructions) ↔
      ∃ raws, RawInstruction.Cuts table unit.code 0 0 raws ∧
        ∀ raw ∈ raws, (table.kind? raw.opcode).any Opcode.ArgumentKind.isJump = false →
          raw.Resolves table unit := by
  rw [exists_decode_iff]
  refine exists_congr fun raws => and_congr_right fun _ => forall₂_congr fun raw _ => ?_
  constructor
  · exact fun resolves _ => resolves
  · intro others
    cases jumps : (table.kind? raw.opcode).any Opcode.ArgumentKind.isJump with
    | true => exact RawInstruction.resolves_of_jump jumps
    | false => exact others jumps

/-- **Jump marks agree with jump arguments.** An instruction is marked if and only if a relative
jump of the unit says that it leads to its offset, or an absolute one has its offset as argument,
under every table whose extending opcode is no relative jump, as in every registered one. What a
relative jump says is its argument counted from where the next instruction starts. A jump to where
no instruction starts could as well be missing, and whether a unit can be decoded does not depend
on its jumps. -/
theorem isJumpTarget_exact {table : Opcode.Table} {unit : CodeUnit}
    {instructions : List Instruction} (decoded : unit.decode table = .ok instructions) :
    ((∀ opcode, table.extender = some opcode → table.kind? opcode ≠ some .relativeJump) →
      ∀ instruction ∈ instructions, instruction.isJumpTarget = true ↔
        ∃ jump ∈ instructions,
          (table.kind? jump.opcode = some .relativeJump ∧
            jump.meaning = "to " ++ toString instruction.offset) ∨
          (table.kind? jump.opcode = some .absoluteJump ∧
            ∃ target, jump.arg = some target ∧ target.toNat = instruction.offset)) ∧
    (∀ (index : Nat) (jump : Instruction), instructions[index]? = some jump →
      table.kind? jump.opcode = some .relativeJump → table.extender ≠ some jump.opcode →
      ∀ distance ∈ jump.arg, jump.meaning = "to " ++
        toString (Instruction.startAt unit.code instructions (index + 1) + distance.toNat)) ∧
    (∀ jump ∈ instructions, ∀ offset, jump.LeadsTo table offset →
      (∀ instruction ∈ instructions, instruction.offset ≠ offset) →
      ∀ instruction ∈ instructions, instruction.isJumpTarget = true ↔
        ∃ other ∈ instructions, other ≠ jump ∧ other.LeadsTo table instruction.offset) ∧
    ((∃ instructions, unit.decode table = .ok instructions) ↔
      ∃ raws, RawInstruction.Cuts table unit.code 0 0 raws ∧
        ∀ raw ∈ raws, (table.kind? raw.opcode).any Opcode.ArgumentKind.isJump = false →
          raw.Resolves table unit) ∧
    (table ∈ Opcode.registry → ∀ opcode, table.extender = some opcode →
      table.kind? opcode ≠ some .relativeJump) := by
  refine ⟨?_, ?_, ?_, exists_decode_iff_of_jumps unit table,
    fun registered _ => Opcode.kind?_ne_relativeJump_of_extender registered⟩
  · intro plain instruction member
    rw [Instruction.isJumpTarget_iff decoded member]
    refine exists_congr fun jump => and_congr_right fun inList => ?_
    exact Instruction.leadsTo_iff_shown decoded plain inList
  · intro index jump stands kind plain distance given
    have member := List.mem_of_getElem? stands
    have shown := Instruction.meaning_of_relativeJump decoded member plain kind
    have cut : (instructions.map (Instruction.raw table))[index]? = some (jump.raw table) := by
      rw [List.getElem?_map, stands]
      rfl
    have next := (Instruction.cuts_of_decode decoded).1.start_eq.2 index _ cut
    rw [Instruction.startAt_eq table, next]
    rwa [given] at shown
  · intro jump inList offset leads nowhere instruction member
    rw [Instruction.isJumpTarget_iff decoded member]
    constructor
    · rintro ⟨other, listed, reaches⟩
      refine ⟨other, listed, ?_, reaches⟩
      rintro rfl
      exact nowhere instruction member (reaches.unique leads)
    · rintro ⟨other, listed, -, reaches⟩
      exact ⟨other, listed, reaches⟩

/-- A unit that jumps forward, back, into an instruction, and past its end. -/
def jumping : CodeUnit :=
  { CodeUnit.blank .modern "f" with code := [110, 6, 0, 113, 0, 0, 113, 1, 0, 110, 255, 255] }

/-- The instructions of the jumping unit: the first and the last one are marked. -/
def jumps : List Instruction :=
  [{ mnemonic := "JUMP_FORWARD", opcode := 110, arg := some 6, meaning := "to 9", offset := 0,
     startsLine := some 0, isJumpTarget := true },
   { mnemonic := "JUMP_ABSOLUTE", opcode := 113, arg := some 0, meaning := "", offset := 3,
     startsLine := none, isJumpTarget := false },
   { mnemonic := "JUMP_ABSOLUTE", opcode := 113, arg := some 1, meaning := "", offset := 6,
     startsLine := none, isJumpTarget := false },
   { mnemonic := "JUMP_FORWARD", opcode := 110, arg := some 65535, meaning := "to 65547",
     offset := 9, startsLine := none, isJumpTarget := true }]

/-- The marks of the jumping unit. The third instruction has none: were there a jump to it, it would
be marked. -/
theorem isJumpTarget_exact_jumps :
    ∃ table ∈ Opcode.registry, jumping.decode table = .ok jumps ∧
      (∃ jump ∈ jumps,
        (table.kind? jump.opcode = some .relativeJump ∧ jump.meaning = "to " ++ toString 9) ∨
        (table.kind? jump.opcode = some .absoluteJump ∧
          ∃ target, jump.arg = some target ∧ target.toNat = 9)) ∧
      ¬ ∃ jump ∈ jumps,
        (table.kind? jump.opcode = some .relativeJump ∧ jump.meaning = "to " ++ toString 6) ∨
        (table.kind? jump.opcode = some .absoluteJump ∧
          ∃ target, jump.arg = some target ∧ target.toNat = 6) := by
  have stands : Opcode.registry[13]? = some (.ofSteps ⟨3, 4⟩ .cpython Opcode.Modern.steps34) := rfl
  have registered := List.mem_of_getElem? stands
  have decoded : jumping.decode (.ofSteps ⟨3, 4⟩ .cpython Opcode.Modern.steps34) = .ok jumps := by
    decide +kernel
  obtain ⟨marks, -, -, -, plain⟩ := isJumpTarget_exact decoded
  have exact := marks (plain registered)
  refine ⟨_, registered, decoded, ?_, fun reached => ?_⟩
  · exact (exact _ (List.mem_of_getElem? (show jumps[3]? = some _ from rfl))).mp rfl
  · cases (exact _ (List.mem_of_getElem? (show jumps[2]? = some _ from rfl))).mpr reached

end CodeUnit

end PycListing
