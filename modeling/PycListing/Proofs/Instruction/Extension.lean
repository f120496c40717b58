import PycListing.Proofs.Instruction.Meaning
import PycListing.Proofs.Instruction.Tiling
import PycListing.Proofs.Opcode.Mnemonics
import Mathlib.Algebra.BigOperators.Fin
import Mathlib.Tactic.Ring

/-! # Extended arguments

An argument joins the operand of its instruction with those of the extending instructions right
before it, each shifted once for every instruction that it precedes. What a chain of extending
instructions adds is a sum over their operands, of which a 32-bit word keeps the low bits
(`PycListing.CodeUnit.decode_extends`). Along the chain each step adds an operand and shifts
(`PycListing.Instruction.carried_concat`), which is what splitting does to the word that it holds
(`PycListing.Instruction.toNat_heldBy_append`).
-/

namespace PycListing

namespace Instruction

/-- An instruction that extends the argument of the next one. -/
def Extends (table : Opcode.Table) (instruction : Instruction) : Prop :=
  table.extender = some instruction.opcode ∧ 90 ≤ instruction.opcode

/-- The number that the bytes after an opcode denote: one byte in word code, else two. -/
def operand (table : Opcode.Table) (code : List UInt8) (instruction : Instruction) : Nat :=
  littleEndian ((code.drop (instruction.offset + 1)).take (if table.isWordcode then 1 else 2))

/-- What extending operands, the oldest first, add to the argument after them: each is shifted once
for itself and once for every operand behind it. -/
def carried (shift : Nat) (operands : List Nat) : Nat :=
  ∑ place : Fin operands.length, operands[place] * 2 ^ (shift * (operands.length - place))

@[simp] theorem carried_nil (shift : Nat) : carried shift [] = 0 :=
  rfl

theorem carried_cons (shift oldest : Nat) (operands : List Nat) :
    carried shift (oldest :: operands) =
      oldest * 2 ^ (shift * (operands.length + 1)) + carried shift operands := by
  rw [carried]
  exact (Fin.sum_univ_succ _).trans (by simp [carried])

/-- One more extending instruction adds its operand and shifts. -/
theorem carried_concat (shift : Nat) (operands : List Nat) (newest : Nat) :
    carried shift (operands ++ [newest]) = (carried shift operands + newest) * 2 ^ shift := by
  induction operands with
  | nil => rw [List.nil_append, carried_cons, carried_nil, List.length_nil]; ring
  | cons oldest operands ih =>
      rw [List.cons_append, carried_cons, carried_cons, ih, List.length_append,
        List.length_singleton]
      ring

end Instruction

/-! ## What splitting holds -/

namespace RawInstruction

variable {table : Opcode.Table} {code : List UInt8} {held : UInt32} {raw : RawInstruction}
  {before after : List RawInstruction}

/-- In a cut stream an instruction stands behind what the ones before it hold. -/
theorem Cuts.standsIn {offset : Nat} (cuts : Cuts table code offset held (before ++ raw :: after)) :
    raw.StandsIn table code (heldAfter table held before) := by
  induction before generalizing offset held with
  | nil =>
      cases cuts with
      | next stands _ => exact stands
  | cons first before ih =>
      cases cuts with
      | next _ more =>
          rw [heldAfter_cons]
          exact ih more

theorem clear_heldAfter (before : List RawInstruction) :
    Clear table (heldAfter table 0 before) := by
  rw [heldAfter]
  cases before.getLast? with
  | none => exact clear_zero
  | some last => exact clear_extension

end RawInstruction

namespace Instruction

variable {table : Opcode.Table} {unit : CodeUnit} {instructions : List Instruction}
  {before extending after : List Instruction} {instruction : Instruction}

theorem littleEndian_operand (takes : 90 ≤ instruction.opcode) :
    littleEndian ((instruction.raw table).operand unit.code) =
      instruction.operand table unit.code := by
  have width : table.width instruction.opcode - 1 = if table.isWordcode then 1 else 2 := by
    rw [Opcode.Table.width_eq, if_pos takes]
    split <;> rfl
  rw [operand, ← width]
  rfl

/-- The word that splitting holds when it comes to an instruction. -/
def heldBy (table : Opcode.Table) (before : List Instruction) : UInt32 :=
  RawInstruction.heldAfter table 0 (before.map (raw table))

theorem heldBy_concat (before : List Instruction) (last : Instruction) :
    heldBy table (before ++ [last]) = (last.raw table).extension table := by
  rw [heldBy, List.map_append, List.map_singleton, RawInstruction.heldAfter_concat]

theorem standsIn_of_decode (decoded : unit.decode table = .ok (before ++ instruction :: after)) :
    (instruction.raw table).StandsIn table unit.code (heldBy table before) := by
  have cuts := (cuts_of_decode decoded).1
  rw [List.map_append, List.map_cons] at cuts
  exact cuts.standsIn

/-- An argument is the operand of its instruction and what the ones before it hold for it. -/
theorem exists_arg_of_decode (decoded : unit.decode table = .ok (before ++ instruction :: after))
    (takes : 90 ≤ instruction.opcode) :
    ∃ arg, instruction.arg = some arg ∧
      arg.toNat = instruction.operand table unit.code + (heldBy table before).toNat := by
  have stands := standsIn_of_decode decoded
  obtain ⟨arg, given, value⟩ :=
    stands.exists_arg (RawInstruction.clear_heldAfter _) (Opcode.hasArgument_iff.mpr takes)
  rw [littleEndian_operand takes] at value
  exact ⟨arg, given, value⟩

/-- Nothing is held after an instruction that does not extend the next argument. -/
theorem heldBy_eq_zero (decoded : unit.decode table = .ok (before ++ after))
    (stops : ∀ last ∈ before.getLast?, ¬last.Extends table) : heldBy table before = 0 := by
  rcases before.eq_nil_or_concat with rfl | ⟨others, last, rfl⟩
  · rfl
  · rw [List.concat_eq_append] at decoded stops ⊢
    rw [List.append_assoc, List.singleton_append] at decoded
    have stands := standsIn_of_decode decoded
    rw [heldBy_concat]
    refine RawInstruction.extension_of_not_extends fun ⟨extender, hasArg⟩ => ?_
    exact stops last (List.getLast?_concat ..) ⟨extender, stands.isSome_arg.mp hasArg⟩

/-- What an extending instruction holds for the next one is its own argument shifted. -/
theorem toNat_heldBy_concat {extender : Instruction} {arg : UInt32}
    (isExtender : extender.Extends table) (given : extender.arg = some arg)
    (before : List Instruction) :
    (heldBy table (before ++ [extender])).toNat =
      arg.toNat * 2 ^ table.extensionShift % 2 ^ 32 := by
  rw [heldBy_concat]
  exact RawInstruction.toNat_extension isExtender.1 given

/-- A chain of extending instructions holds the low bits of what their operands add. -/
theorem toNat_heldBy_append
    (decoded : unit.decode table = .ok (before ++ extending ++ after))
    (stops : ∀ last ∈ before.getLast?, ¬last.Extends table)
    (chain : ∀ extender ∈ extending, extender.Extends table) :
    (heldBy table (before ++ extending)).toNat =
      carried table.extensionShift (extending.map (operand table unit.code)) % 2 ^ 32 := by
  induction extending using List.reverseRecOn generalizing after with
  | nil =>
      rw [List.append_nil] at decoded ⊢
      rw [heldBy_eq_zero decoded stops]
      rfl
  | append_singleton extending newest ih =>
      rw [← List.append_assoc, List.append_assoc _ [newest], List.singleton_append] at decoded
      have older := ih decoded fun extender member => chain extender (List.mem_append_left _ member)
      have isExtender := chain newest (List.mem_append_right _ (List.mem_singleton_self newest))
      obtain ⟨arg, given, value⟩ := exists_arg_of_decode decoded isExtender.2
      rw [← List.append_assoc, toNat_heldBy_concat isExtender given, value, older,
        List.map_append, List.map_singleton, carried_concat, Nat.add_comm, Nat.mul_mod,
        Nat.mod_add_mod, ← Nat.mul_mod]

/-- The number that an extending instruction shows is its argument shifted. -/
theorem meaning_of_extends {extender : Instruction} {arg : UInt32}
    (decoded : unit.decode table = .ok instructions) (member : extender ∈ instructions)
    (isExtender : extender.Extends table) (given : extender.arg = some arg) :
    extender.meaning = toString (arg.toNat * 2 ^ table.extensionShift) := by
  have denotes := (cuts_of_decode decoded).2 extender member
  exact Except.ok.inj (denotes.symm.trans (meaning?_of_extender given isExtender.1))

end Instruction

namespace Opcode

/-- Whether a write defines no extending opcode below those that take an argument. -/
def leavesExtenders (write : Write) : Bool :=
  Nat.ble 90 write.1.toNat || !write.2.any fun definition => definition.mnemonic == extenderName

theorem leavesExtenders_registeredSteps :
    registeredSteps.all (fun steps => (newestFirst steps).all leavesExtenders) = true := by
  decide +kernel

/-- The opcode that extends arguments takes one itself, in every registered table. -/
theorem le_of_extender {table : Table} (registered : table ∈ registry) {opcode : UInt8}
    (extender : table.extender = some opcode) : 90 ≤ opcode := by
  rw [table.extender_eq, Slots.opcode?] at extender
  have bears := List.find?_some extender
  obtain ⟨definition, found, named⟩ := Option.any_eq_true _ _ |>.mp bears
  have own := check_of_definition? leavesExtenders_registeredSteps registered found
  rw [leavesExtenders, Option.any_some, named, Bool.not_true, Bool.or_false, Nat.ble_eq] at own
  exact UInt8.le_iff_toNat_le.mpr own

end Opcode

/-- **Arguments are extended by sums.** Behind a chain of extending instructions, however long, an
argument is its own operand and what the operands of the chain add, in 32 bits. An instruction
without an argument ends a chain. An extending instruction shows what the next argument has above
its own operand, which may exceed 32 bits. -/
theorem CodeUnit.decode_extends {table : Opcode.Table} {unit : CodeUnit}
    {instructions : List Instruction} (decoded : unit.decode table = .ok instructions) :
    (∀ (before extending after : List Instruction) (instruction : Instruction),
      instructions = before ++ extending ++ instruction :: after →
      (∀ last ∈ before.getLast?, ¬last.Extends table) →
      (∀ extender ∈ extending, extender.Extends table) → 90 ≤ instruction.opcode →
      ∃ arg, instruction.arg = some arg ∧
        arg.toNat = (instruction.operand table unit.code +
          Instruction.carried (if table.isWordcode then 8 else 16)
            (extending.map (Instruction.operand table unit.code))) % 2 ^ 32) ∧
    (∀ (before after : List Instruction) (plain : Instruction),
      instructions = before ++ plain :: after → plain.opcode < 90 →
      plain.arg = none ∧ ∀ next ∈ after.head?, 90 ≤ next.opcode →
        ∃ arg, next.arg = some arg ∧ arg.toNat = next.operand table unit.code) ∧
    (∀ (before after : List Instruction) (extender next : Instruction),
      instructions = before ++ extender :: next :: after →
      extender.Extends table → 90 ≤ next.opcode →
      ∃ (shown : Nat) (arg : UInt32),
        extender.meaning = toString shown ∧ next.arg = some arg ∧
        shown % 2 ^ 32 + next.operand table unit.code = arg.toNat) ∧
    (table ∈ Opcode.registry → ∀ instruction ∈ instructions,
      table.extender = some instruction.opcode → instruction.Extends table) := by
  refine ⟨?_, ?_, ?_, ?_⟩
  · rintro before extending after instruction rfl stops chain takes
    obtain ⟨arg, given, value⟩ := Instruction.exists_arg_of_decode decoded takes
    refine ⟨arg, given, ?_⟩
    have held := Instruction.toNat_heldBy_append decoded stops chain
    have small : arg.toNat < 2 ^ 32 := arg.toNat_lt
    rw [held] at value
    rw [← Nat.mod_eq_of_lt small, value, Nat.add_mod_mod, Opcode.Table.extensionShift]
  · rintro before after plain rfl below
    have none : ¬90 ≤ plain.opcode := UInt8.not_le.mpr below
    have stands := Instruction.standsIn_of_decode decoded
    refine ⟨?_, fun next first takes => ?_⟩
    · exact Option.not_isSome_iff_eq_none.mp fun hasArg => none (stands.isSome_arg.mp hasArg)
    · obtain ⟨rest, rfl⟩ := List.head?_eq_some_iff.mp first
      rw [List.append_cons] at decoded
      have nothing : Instruction.heldBy table (before ++ [plain]) = 0 :=
        Instruction.heldBy_eq_zero decoded fun last isLast isExtender => by
          rw [List.getLast?_concat, Option.mem_some] at isLast
          exact none (isLast ▸ isExtender.2)
      obtain ⟨arg, given, value⟩ := Instruction.exists_arg_of_decode decoded takes
      rw [nothing] at value
      exact ⟨arg, given, value⟩
  · rintro before after extender next rfl isExtender takes
    obtain ⟨extension, shown, -⟩ := Instruction.exists_arg_of_decode decoded isExtender.2
    have meaning := Instruction.meaning_of_extends decoded
      (List.mem_append_right _ List.mem_cons_self) isExtender shown
    rw [List.append_cons] at decoded
    obtain ⟨arg, given, value⟩ := Instruction.exists_arg_of_decode decoded takes
    rw [Instruction.toNat_heldBy_concat isExtender shown] at value
    exact ⟨_, arg, meaning, given, by rw [value, Nat.add_comm]⟩
  · intro registered instruction member extender
    exact ⟨extender, Opcode.le_of_extender registered extender⟩

/-- The chain of four operands leaves three of them in the argument of the call, while the last of
the extending instructions shows more than 32 bits. -/
theorem CodeUnit.decode_extends_calling :
    callingWords.decode (.ofSteps ⟨3, 6⟩ .cpython Opcode.Modern.steps36) =
        .ok Instruction.ofCallingWords ∧
      (16909060 : UInt32).toNat = (4 + Instruction.carried 8 [9, 1, 2, 3]) % 2 ^ 32 := by
  have extender : (Opcode.Table.ofSteps ⟨3, 6⟩ .cpython Opcode.Modern.steps36).extender =
      some 144 := by decide +kernel
  have chain : ∀ instruction ∈ Instruction.ofCallingWords.take 4,
      instruction.Extends (.ofSteps ⟨3, 6⟩ .cpython Opcode.Modern.steps36) := by
    simp [Instruction.ofCallingWords, Instruction.extending, Instruction.Extends, extender]
  obtain ⟨arg, given, value⟩ := (decode_extends decode_callingWords).1 []
    (Instruction.ofCallingWords.take 4) _ _ rfl nofun chain (by decide)
  cases given
  exact ⟨decode_callingWords, value⟩

end PycListing
