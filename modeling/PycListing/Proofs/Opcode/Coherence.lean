import PycListing.Proofs.Opcode.Mnemonics
import Mathlib.Algebra.Group.Nat.Defs
import Mathlib.Logic.Function.Basic

/-! # Assembled tables are coherent

However a table is assembled, a slot holds what was written to it last
(`PycListing.Opcode.Slots.lookup_ofSteps_eq_iff`). A mnemonic leads to the highest slot that bears
it (`PycListing.Opcode.Slots.opcode?_eq_some_iff`), which is where a map leads that the definitions
are entered into in increasing order (`PycListing.Opcode.Slots.index_eq_opcode?`). If moreover the
definitions take arguments as their numbers say, then slots, mnemonics and the opcode that extends
arguments agree in the table (`PycListing.Opcode.Table.coherent_ofSteps`).
-/

namespace PycListing.Opcode

variable {op : UInt8} {mnemonic : String} {definition : Definition} {entry : Option Definition}
  {writes : List Write} {slots : Slots} {steps : List Step}

/-! ## What a slot holds -/

/-- A write is the last one to its slot. -/
def IsLatest (writes : List Write) (write : Write) : Prop :=
  ∃ before after, writes = before ++ write :: after ∧ ∀ later ∈ after, later.1 ≠ write.1

theorem latest_eq_find? (op : UInt8) (writes : List Write) :
    latest op writes = (writes.find? (·.1 == op)).bind Prod.snd := by
  induction writes with
  | nil => rfl
  | cons newest others ih =>
      by_cases same : newest.1 = op
      · simp [latest, same]
      · simp [latest_cons_of_ne same, same, ih]

/-- What is left in a slot was written to it last, or nothing was written to it. -/
theorem latest_eq_iff : latest op writes = entry ↔
    (∃ newer older, writes = newer ++ (op, entry) :: older ∧ ∀ later ∈ newer, later.1 ≠ op) ∨
      entry = none ∧ ∀ write ∈ writes, write.1 ≠ op := by
  have first : writes.find? (·.1 == op) = some (op, entry) ↔
      ∃ newer older, writes = newer ++ (op, entry) :: older ∧ ∀ later ∈ newer, later.1 ≠ op := by
    simp [List.find?_eq_some_iff_append]
  have unwritten : writes.find? (·.1 == op) = none ↔ ∀ write ∈ writes, write.1 ≠ op := by
    simp
  rw [← first, ← unwritten, latest_eq_find?]
  cases found : writes.find? (·.1 == op) with
  | none => simp [eq_comm]
  | some write =>
      have hit := List.find?_some found
      have same : write.1 = op := beq_iff_eq.mp hit
      simp [← same, Prod.ext_iff]

theorem isLatest_iff_reverse {write : Write} : IsLatest writes write ↔
    ∃ newer older, writes.reverse = newer ++ write :: older ∧
      ∀ later ∈ newer, later.1 ≠ write.1 := by
  constructor
  · rintro ⟨before, after, rfl, unlike⟩
    refine ⟨after.reverse, before.reverse, ?_, fun later member => ?_⟩
    · rw [List.reverse_append, List.reverse_cons, List.append_assoc, List.singleton_append]
    · exact unlike later (List.mem_reverse.mp member)
  · rintro ⟨newer, older, written, unlike⟩
    refine ⟨older.reverse, newer.reverse, ?_, fun later member => ?_⟩
    · rw [← List.reverse_reverse writes, written, List.reverse_append, List.reverse_cons,
        List.append_assoc, List.singleton_append]
    · exact unlike later (List.mem_reverse.mp member)

namespace Slots

/-- A slot holds what was written to it last. It is empty if that was a removal, and if nothing was
written to it. -/
theorem lookup_ofSteps_eq_iff : (ofSteps steps).lookup op = entry ↔
    IsLatest (steps.flatMap Step.writes) (op, entry) ∨
      entry = none ∧ ∀ write ∈ steps.flatMap Step.writes, write.1 ≠ op := by
  rw [lookup_ofSteps, latest_eq_iff, newestFirst, isLatest_iff_reverse]
  simp only [List.mem_reverse]

/-! ## Where a mnemonic leads -/

/-- The slot of an opcode holds a definition of that mnemonic. -/
def Bears (slots : Slots) (op : UInt8) (mnemonic : String) : Prop :=
  ∃ definition, slots.lookup op = some definition ∧ definition.mnemonic = mnemonic

theorem any_lookup_eq_true_iff :
    ((slots.lookup op).any fun definition => definition.mnemonic == mnemonic) = true ↔
      slots.Bears op mnemonic := by
  simp only [Option.any_eq_true, beq_iff_eq, Bears]

end Slots

theorem pairwise_all : all.Pairwise (· < ·) := by
  rw [all, List.pairwise_map]
  refine List.pairwise_lt_range.imp_of_mem fun {low high} _ member less => ?_
  have small := List.mem_range.mp member
  rw [UInt8.lt_iff_toNat_lt, Nat.toUInt8_eq, Nat.toUInt8_eq, UInt8.toNat_ofNat',
    UInt8.toNat_ofNat']
  omega

namespace Slots

theorem bears_of_opcode? (found : slots.opcode? mnemonic = some op) : slots.Bears op mnemonic := by
  have bears := List.find?_some found
  exact any_lookup_eq_true_iff.mp bears

/-- No opcode above the one that a mnemonic leads to bears it. -/
theorem le_of_opcode? {other : UInt8} (found : slots.opcode? mnemonic = some op)
    (bears : slots.Bears other mnemonic) : other ≤ op := by
  obtain ⟨_, above, below, opcodes, unlike⟩ := List.find?_eq_some_iff_append.mp found
  have decreasing : (above ++ op :: below).Pairwise (· > ·) :=
    opcodes ▸ List.pairwise_reverse.mpr pairwise_all
  have member : other ∈ above ++ op :: below := opcodes ▸ List.mem_reverse.mpr (mem_all other)
  rcases List.mem_append.mp member with inAbove | inRest
  · have apart := unlike other inAbove
    rw [any_lookup_eq_true_iff.mpr bears] at apart
    cases apart
  · rcases List.mem_cons.mp inRest with rfl | inBelow
    · exact UInt8.le_refl _
    · have ordered := (List.pairwise_append.mp decreasing).2.1
      exact UInt8.le_of_lt ((List.pairwise_cons.mp ordered).1 other inBelow)

theorem exists_opcode?_of_bears (bears : slots.Bears op mnemonic) :
    ∃ highest, slots.opcode? mnemonic = some highest ∧ op ≤ highest := by
  have found : (slots.opcode? mnemonic).isSome :=
    List.find?_isSome.mpr
      ⟨op, List.mem_reverse.mpr (mem_all op), any_lookup_eq_true_iff.mpr bears⟩
  obtain ⟨highest, leads⟩ := Option.isSome_iff_exists.mp found
  exact ⟨highest, leads, le_of_opcode? leads bears⟩

/-- A mnemonic leads to the highest slot that bears it. -/
theorem opcode?_eq_some_iff : slots.opcode? mnemonic = some op ↔
    slots.Bears op mnemonic ∧ ∀ other, slots.Bears other mnemonic → other ≤ op := by
  constructor
  · intro found
    exact ⟨bears_of_opcode? found, fun other => le_of_opcode? found⟩
  · rintro ⟨bears, isHighest⟩
    obtain ⟨highest, found, above⟩ := exists_opcode?_of_bears bears
    have below := isHighest highest (bears_of_opcode? found)
    rw [found, UInt8.le_antisymm below above]

/-- The opcodes of mnemonics: the definitions are entered in increasing order, so that a later one
of a mnemonic takes the place of an earlier one. -/
def index (slots : Slots) : String → Option UInt8 :=
  slots.defined.foldl
    (fun index (op, definition) => Function.update index definition.mnemonic (some op))
    fun _ => none

/-- Where the map leads once the definitions of the slots of some opcodes are entered. -/
theorem foldl_update_eq_find? (slots : Slots) (mnemonic : String) (opcodes : List UInt8) :
    (opcodes.filterMap fun op => (slots.lookup op).map fun definition => (op, definition)).foldl
        (fun index (op, definition) => Function.update index definition.mnemonic (some op))
        (fun _ => none) mnemonic =
      opcodes.reverse.find? fun op =>
        (slots.lookup op).any fun definition => definition.mnemonic == mnemonic := by
  induction opcodes using List.reverseRecOn with
  | nil => rfl
  | append_singleton opcodes op ih =>
      rw [List.filterMap_append, List.foldl_append, List.reverse_append, List.reverse_singleton,
        List.singleton_append, List.find?_cons, ← ih]
      cases held : slots.lookup op with
      | none => simp [held]
      | some definition =>
          by_cases same : definition.mnemonic = mnemonic
          · simp [held, same]
          · rw [Option.any_some, beq_eq_false_iff_ne.mpr same]
            simp [held, Function.update_of_ne (Ne.symm same)]

theorem index_eq_opcode? (slots : Slots) (mnemonic : String) :
    slots.index mnemonic = slots.opcode? mnemonic :=
  foldl_update_eq_find? slots mnemonic all

end Slots

/-! ## Arguments -/

/-- Definitions with kinds of arguments have an argument if and only if their numbers call for
one. -/
def Step.Asserted : Step → Prop
  | .plain _ => True
  | .define entries => ∀ entry ∈ entries, 90 ≤ entry.1 ↔ entry.2.kind ≠ .absent
  | .remove _ => True

instance : DecidablePred Step.Asserted
  | .plain _ => inferInstanceAs (Decidable True)
  | .define entries =>
    inferInstanceAs (Decidable (∀ entry ∈ entries, 90 ≤ entry.1 ↔ entry.2.kind ≠ .absent))
  | .remove _ => inferInstanceAs (Decidable True)

theorem plainKind_ne_absent_iff : plainKind op ≠ .absent ↔ hasArgument op = true := by
  rw [plainKind]
  split
  · next takes => simp [takes]
  · next plain => simp [plain]

/-- What an asserted step writes has an argument if and only if its number calls for one. -/
theorem Step.Asserted.hasArgument_iff {step : Step} (asserted : step.Asserted)
    (written : (op, some definition) ∈ step.writes) :
    hasArgument op = true ↔ definition.kind ≠ .absent := by
  cases step with
  | plain entries =>
      obtain ⟨entry, _, made⟩ := List.mem_map.mp written
      cases made
      exact plainKind_ne_absent_iff.symm
  | define entries =>
      obtain ⟨entry, member, made⟩ := List.mem_map.mp written
      cases made
      rw [hasArgument, decide_eq_true_iff]
      exact asserted entry member
  | remove entries =>
      obtain ⟨entry, _, made⟩ := List.mem_map.mp written
      cases made

theorem Slots.hasArgument_iff_of_lookup (asserted : ∀ step ∈ steps, step.Asserted)
    (held : (ofSteps steps).lookup op = some definition) :
    hasArgument op = true ↔ definition.kind ≠ .absent := by
  rw [lookup_ofSteps] at held
  have written := List.mem_reverse.mp (mem_of_latest held)
  obtain ⟨step, member, writes⟩ := List.mem_flatMap.mp written
  exact (asserted step member).hasArgument_iff writes

/-! ## The whole table -/

namespace Table

/-- A table agrees with the writes that assembled it, and with itself. -/
structure Coherent (table : Table) (writes : List Write) : Prop where
  defined : ∀ op definition,
    table.definition? op = some definition ↔ IsLatest writes (op, some definition)
  undefined : ∀ op, table.definition? op = none ↔
    IsLatest writes (op, none) ∨ ∀ write ∈ writes, write.1 ≠ op
  argument : ∀ op definition, table.definition? op = some definition →
    (hasArgument op = true ↔ definition.kind ≠ .absent)
  /-- A mnemonic leads to the highest slot that bears it. -/
  highest : ∀ mnemonic op, table.opcode? mnemonic = some op ↔
    table.slots.Bears op mnemonic ∧ ∀ other, table.slots.Bears other mnemonic → other ≤ op
  found : ∀ op definition, table.definition? op = some definition →
    ∃ other, table.opcode? definition.mnemonic = some other ∧ op ≤ other
  index : ∀ mnemonic, table.slots.index mnemonic = table.opcode? mnemonic
  extender : table.extender = table.opcode? "EXTENDED_ARG"
  /-- Only the opcode that extends arguments has a text for its own, which is shifted by the width
  of an operand. -/
  extension : ∀ op arg, table.extensionText? op arg =
    if table.opcode? "EXTENDED_ARG" = some op then
      some (toString (arg.toNat * 2 ^ if table.version.usesWordcode then 8 else 16))
    else none

theorem extensionText?_eq (table : Table) (op : UInt8) (arg : UInt32) :
    table.extensionText? op arg =
      if table.opcode? "EXTENDED_ARG" = some op then
        some (toString (arg.toNat * 2 ^ if table.version.usesWordcode then 8 else 16))
      else none := by
  rw [extensionText?, table.extender_eq]
  rfl

/-- **Assembled tables are coherent.** Whatever steps assemble a table, as long as the definitions
among them have an argument just if their numbers call for one, each slot holds the last write to
it, each mnemonic leads to the highest slot that bears it, and the opcode that extends arguments is
the one that is called so, with the shift of the version's encoding. -/
theorem coherent_ofSteps (version : Version) (flavor : Flavor) (steps : List Step)
    (asserted : ∀ step ∈ steps, step.Asserted) :
    (ofSteps version flavor steps).version = version ∧
      (ofSteps version flavor steps).flavor = flavor ∧
      (ofSteps version flavor steps).Coherent (steps.flatMap Step.writes) := by
  refine ⟨rfl, rfl, ?_⟩
  constructor
  case defined =>
    intro op definition
    refine Slots.lookup_ofSteps_eq_iff.trans ?_
    simp only [reduceCtorEq, false_and, or_false]
  case undefined =>
    intro op
    refine Slots.lookup_ofSteps_eq_iff.trans ?_
    rw [eq_self, true_and]
  case argument => exact fun op definition => Slots.hasArgument_iff_of_lookup asserted
  case highest => exact fun mnemonic op => Slots.opcode?_eq_some_iff
  case found =>
    intro op definition held
    exact Slots.exists_opcode?_of_bears ⟨definition, held, rfl⟩
  case index => exact Slots.index_eq_opcode? _
  case extender => exact extender_eq _
  case extension => exact extensionText?_eq _

/-- Version 2.7 renumbers the opcodes of 2.3 in four layers. -/
theorem coherent_ofSteps_legacy :
    (∀ step ∈ Legacy.steps27, step.Asserted) ∧
      (ofSteps ⟨2, 7⟩ .cpython Legacy.steps27).Coherent (Legacy.steps27.flatMap Step.writes) := by
  have asserted : ∀ step ∈ Legacy.steps27, step.Asserted := by decide +kernel
  exact ⟨asserted, (coherent_ofSteps ⟨2, 7⟩ .cpython Legacy.steps27 asserted).2.2⟩

end Table

end PycListing.Opcode
