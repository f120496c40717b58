import PycListing.Instruction.Decode

/-! # What arguments mean

An argument means nothing, what it extends the next one by, or what the kind of its opcode says. A
kind can look up an entry of a pool, and the lookup fails for an index that has none
(`PycListing.Instruction.entryAt_eq_error_iff`).
-/

namespace PycListing

/-- The kind of argument that a table gives an opcode, if it defines it. -/
def Opcode.Table.kind? (table : Table) (opcode : UInt8) : Option ArgumentKind :=
  (table.definition? opcode).map Definition.kind

namespace Instruction

/-! ## Entries of pools -/

section

variable {α β : Type} {entries : List α} {index : Nat} {fault : Nat → DecodeFault}

theorem map_entryAt (entries : List α) (index : Nat) (fault : Nat → DecodeFault) (text : α → β) :
    (entryAt entries index fault).map text = entryAt (entries.map text) index fault := by
  rw [entryAt, entryAt, List.getElem?_map]
  cases entries[index]? <;> rfl

theorem entryAt_eq_error_iff {error : DecodeFault} :
    entryAt entries index fault = .error error ↔ entries.length ≤ index ∧ error = fault index := by
  rw [← List.getElem?_eq_none_iff, entryAt]
  cases entries[index]? with
  | none => simp only [Except.error.injEq, true_and, eq_comm]
  | some entry => simp only [reduceCtorEq, false_and]

theorem entryAt_eq_ok_iff {entry : α} :
    entryAt entries index fault = .ok entry ↔ entries[index]? = some entry := by
  rw [entryAt]
  cases entries[index]? with
  | none => simp only [reduceCtorEq]
  | some own => rw [Except.ok.injEq, Option.some.injEq]

/-- The cell variables and the free ones after them are one pool. -/
theorem cellAt_eq (unit : CodeUnit) (index : Nat) :
    cellAt unit index = entryAt (unit.cellvars ++ unit.freevars) index
      fun index => .freeIndex (index - unit.cellvars.length) := by
  rcases Nat.lt_or_ge index unit.cellvars.length with inside | behind
  · rw [cellAt, entryAt, entryAt, List.getElem?_append_left inside,
      List.getElem?_eq_getElem inside]
  · rw [cellAt, entryAt, entryAt, List.getElem?_append_right behind,
      List.getElem?_eq_none behind]

end

/-! ## Meanings -/

section

variable {table : Opcode.Table} {unit : CodeUnit} {raw : RawInstruction} {arg : UInt32}

theorem meaning?_of_absent (absent : raw.arg = none) : meaning? table unit raw = .ok "" := by
  rw [meaning?, absent]

/-- An extending opcode shows what it contributes, whatever its kind. -/
theorem meaning?_of_extender (given : raw.arg = some arg)
    (extender : table.extender = some raw.opcode) :
    meaning? table unit raw = .ok (toString (arg.toNat * Nat.pow 2 table.extensionShift)) := by
  rw [meaning?, given]
  dsimp only
  rw [Opcode.Table.extensionText?, if_pos extender]

theorem meaning?_of_kind (given : raw.arg = some arg) (plain : table.extender ≠ some raw.opcode)
    {kind : Opcode.ArgumentKind} (known : table.kind? raw.opcode = some kind) :
    meaning? table unit raw = argumentText unit raw arg kind := by
  obtain ⟨definition, defined, rfl⟩ := Option.map_eq_some_iff.mp known
  rw [meaning?, given]
  dsimp only
  rw [Opcode.Table.extensionText?, if_neg plain, defined]

theorem meaning?_of_unknown (given : raw.arg = some arg) (plain : table.extender ≠ some raw.opcode)
    (unknown : table.kind? raw.opcode = none) : meaning? table unit raw = .ok "" := by
  rw [meaning?, given]
  dsimp only
  rw [Opcode.Table.extensionText?, if_neg plain, Option.map_eq_none_iff.mp unknown]

end

end Instruction

end PycListing
