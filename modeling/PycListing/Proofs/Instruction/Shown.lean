import PycListing.Proofs.Code.OneLine
import PycListing.Proofs.Instruction.Rejection

/-! # What instructions show as it is

An argument can denote a text of its unit that is shown without quotes: a name, or what the literal
of a constant does not quote (`PycListing.CodeUnit.Shows`). Whatever else an argument denotes holds
no newline (`PycListing.Instruction.oneLine_meaning_iff`).
-/

namespace PycListing

open Text (OneLine)

/-- A text that an argument of a kind, an index into its unit, shows as it is. -/
def CodeUnit.Shows (unit : CodeUnit) (kind : Opcode.ArgumentKind) (index : Nat) (text : String) :
    Prop :=
  match kind with
  | .constant =>
    ∃ value ∈ unit.consts[index]?, ∃ inner, Value.Shown inner value ∧ text ∈ inner.unquoted
  | .name => unit.names[index]? = some text
  | .variable => unit.varnames[index]? = some text
  | .cell => (unit.cellvars ++ unit.freevars)[index]? = some text
  | .absent | .number | .relativeJump | .absoluteJump | .callCounts | .comparison => False

namespace RawInstruction

variable {table : Opcode.Table} {unit : CodeUnit} {raw : RawInstruction} {arg : UInt32}
  {kind : Opcode.ArgumentKind} {meaning : String}

/-- A text of its unit that an instruction shows as it is. An extending opcode shows a number,
whatever its kind. -/
def Shows (table : Opcode.Table) (unit : CodeUnit) (raw : RawInstruction) (text : String) : Prop :=
  table.extender ≠ some raw.opcode ∧
    ∃ kind ∈ table.kind? raw.opcode, ∃ arg ∈ raw.arg, unit.Shows kind arg.toNat text

theorem oneLine_comparison {operator : String} (member : operator ∈ Opcode.comparisons) :
    OneLine operator.toList := by
  have all : Opcode.comparisons.all (fun operator => !operator.toList.contains '\n') = true := rfl
  have own := List.all_eq_true.mp all operator member
  exact .of_contains_eq_false (Bool.not_eq_true' _ ▸ own)

theorem oneLine_entry_iff {entries : List String} {index : Nat}
    (stands : entries[index]? = some meaning) :
    OneLine meaning.toList ↔ ∀ text, entries[index]? = some text → OneLine text.toList := by
  simp only [stands, Option.some.injEq, forall_eq']

/-- What an argument denotes stands on one line if and only if each text shown as it is does. -/
theorem oneLine_argumentText_iff
    (found : Instruction.argumentText unit raw arg kind = .ok meaning) :
    OneLine meaning.toList ↔ ∀ text, unit.Shows kind arg.toNat text → OneLine text.toList := by
  cases kind with
  | absent | number | absoluteJump =>
      cases found
      exact iff_of_true .nil nofun
  | constant =>
      cases stands : Instruction.entryAt unit.consts arg.toNat .constantIndex with
      | error fault =>
          rw [Instruction.argumentText, stands] at found
          cases found
      | ok value =>
          rw [Instruction.argumentText, stands] at found
          cases found
          have own := Instruction.entryAt_eq_ok_iff.mp stands
          rw [Value.oneLine_literal_iff]
          constructor
          · rintro each text ⟨other, again, inner, shown, member⟩
            cases own.symm.trans again
            exact each inner shown text member
          · exact fun each inner shown text member => each text ⟨value, own, inner, shown, member⟩
  | name => exact oneLine_entry_iff (Instruction.entryAt_eq_ok_iff.mp found)
  | «variable» => exact oneLine_entry_iff (Instruction.entryAt_eq_ok_iff.mp found)
  | cell =>
      rw [Instruction.argumentText, Instruction.cellAt_eq] at found
      exact oneLine_entry_iff (Instruction.entryAt_eq_ok_iff.mp found)
  | comparison =>
      have stands := Instruction.entryAt_eq_ok_iff.mp found
      exact iff_of_true (oneLine_comparison (List.mem_of_getElem? stands)) nofun
  | relativeJump =>
      cases found
      rw [String.toList_append]
      exact iff_of_true (.append (.of_contains_eq_false rfl) (.toString_nat _)) nofun
  | callCounts =>
      cases found
      have between : OneLine " positional, ".toList := .of_contains_eq_false rfl
      have behind : OneLine " keyword pair".toList := .of_contains_eq_false rfl
      rw [String.toList_append, String.toList_append, String.toList_append]
      refine iff_of_true (.append (.append (.append (.toString_nat _) between) ?_) behind) nofun
      exact .toString_nat _

/-- What an instruction means stands on one line if and only if each text that it shows as it is
does. -/
theorem oneLine_meaning?_iff (found : Instruction.meaning? table unit raw = .ok meaning) :
    OneLine meaning.toList ↔ ∀ text, raw.Shows table unit text → OneLine text.toList := by
  cases given : raw.arg with
  | none =>
      cases (Instruction.meaning?_of_absent given).symm.trans found
      refine iff_of_true .nil ?_
      rintro text ⟨-, kind, -, arg, present, -⟩
      cases given.symm.trans present
  | some arg =>
      by_cases extender : table.extender = some raw.opcode
      · cases (Instruction.meaning?_of_extender given extender).symm.trans found
        exact iff_of_true (.toString_nat _) fun text shows => absurd extender shows.1
      · cases known : table.kind? raw.opcode with
        | none =>
            cases (Instruction.meaning?_of_unknown given extender known).symm.trans found
            refine iff_of_true .nil ?_
            rintro text ⟨-, kind, defined, -⟩
            cases known.symm.trans defined
        | some kind =>
            rw [Instruction.meaning?_of_kind given extender known] at found
            have shows (text : String) :
                raw.Shows table unit text ↔ unit.Shows kind arg.toNat text := by
              simp only [Shows, known, given, Option.mem_some_iff, exists_eq_left', ne_eq, extender,
                not_false_eq_true, true_and]
            simp only [shows]
            exact oneLine_argumentText_iff found

end RawInstruction

/-- A decoded instruction means a text of one line if and only if each text that it shows as it is
stands on one. -/
theorem Instruction.oneLine_meaning_iff {table : Opcode.Table} {unit : CodeUnit}
    {instructions : List Instruction} {instruction : Instruction}
    (decoded : unit.decode table = .ok instructions) (member : instruction ∈ instructions) :
    OneLine instruction.meaning.toList ↔
      ∀ text, (instruction.raw table).Shows table unit text → OneLine text.toList :=
  RawInstruction.oneLine_meaning?_iff ((cuts_of_decode decoded).2 instruction member)

end PycListing
