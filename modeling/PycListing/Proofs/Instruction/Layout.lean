import PycListing.Proofs.Instruction.Listing

/-! # The layout of a listing

A listing has the row of each instruction, and an empty row ahead of each one but the first that
starts a source line (`PycListing.Instruction.layout`). Rows show some texts of the unit as they
are, so that a newline in such a text breaks its row, and the rest of the text can pass for the row
of another instruction. Where there are instructions, that is the only way in which the lines of a
listing are not its layout (`PycListing.CodeUnit.splitOn_listing`).
-/

namespace PycListing

open Text (OneLine)

/-! ## Offsets -/

namespace RawInstruction

variable {table : Opcode.Table} {code : List UInt8} {held : UInt32} {first : RawInstruction}
  {raws : List RawInstruction}

theorem Cuts.offset_le {offset : Nat} (cuts : Cuts table code offset held raws) :
    ∀ raw ∈ raws, offset ≤ raw.offset := by
  induction cuts with
  | done => exact List.forall_mem_nil _
  | next _ _ ih =>
      refine List.forall_mem_cons.mpr ⟨Nat.le_refl _, fun raw member => ?_⟩
      exact Nat.le_trans (Nat.le_add_right _ _) (ih raw member)

/-- No instruction but the first starts at the front of the stream. -/
theorem Cuts.offset_pos {offset : Nat} (cuts : Cuts table code offset held (first :: raws)) :
    ∀ raw ∈ raws, 0 < raw.offset := by
  cases cuts with
  | next stands more =>
      intro raw member
      have width : 0 < first.size := stands.size ▸ table.width_pos first.opcode
      have behind : first.offset + first.size ≤ raw.offset := more.offset_le raw member
      omega

end RawInstruction

namespace Instruction

variable {table : Opcode.Table} {unit : CodeUnit} {instructions : List Instruction}
  {instruction : Instruction}

/-! ## Rows of the layout -/

/-- The rows of a listing: that of each instruction, and an empty one ahead of each instruction but
the first that starts a source line. -/
def layout (instructions : List Instruction) : List String :=
  let width := lineWidth instructions
  match instructions with
  | [] => []
  | first :: rest =>
    first.row width :: rest.flatMap fun instruction =>
      if instruction.startsLine.isSome then ["", instruction.row width] else [instruction.row width]

theorem rows_eq_layout (decoded : unit.decode table = .ok instructions) :
    rows instructions = layout instructions := by
  have cuts := (cuts_of_decode decoded).1
  unfold rows layout
  cases instructions with
  | nil => rfl
  | cons first rest =>
      refine congrArg _ (List.flatMap_congr fun instruction member => ?_)
      have later : 0 < instruction.offset := cuts.offset_pos _ (List.mem_map_of_mem member)
      rw [rowsOf, decide_eq_true later, Bool.and_true]

theorem row_mem_rows (member : instruction ∈ instructions) :
    instruction.row (lineWidth instructions) ∈ rows instructions := by
  unfold rows
  generalize lineWidth instructions = width
  cases instructions with
  | nil => cases member
  | cons first rest =>
      rcases List.mem_cons.mp member with rfl | inRest
      · exact List.mem_cons_self
      · refine List.mem_cons_of_mem _ (List.mem_flatMap.mpr ⟨instruction, inRest, ?_⟩)
        unfold rowsOf
        split
        · exact List.mem_cons_of_mem _ List.mem_cons_self
        · exact List.mem_cons_self

theorem rows_ne_nil (some : instructions ≠ []) : rows instructions ≠ [] := by
  cases instructions with
  | nil => exact absurd rfl some
  | cons first rest => exact List.cons_ne_nil _ _

/-- The rows of a listing stand on one line if and only if those of its instructions do. -/
theorem oneLine_rows_iff :
    (∀ text ∈ (rows instructions).map String.toList, OneLine text) ↔
      ∀ instruction ∈ instructions, OneLine (instruction.row (lineWidth instructions)).toList := by
  rw [List.forall_mem_map]
  constructor
  · exact fun each instruction member => each _ (row_mem_rows member)
  · intro each text member
    rcases eq_of_mem_rows member with rfl | ⟨instruction, inList, rfl⟩
    · exact .nil
    · exact each instruction inList

/-! ## Lines of a listing -/

/-- A listing is split at its newlines into its rows, each of them split at its own. -/
theorem splitOn_listing_eq (some : instructions ≠ []) :
    (listing instructions).toList.splitOn '\n' =
      ((rows instructions).map String.toList).flatMap (List.splitOn '\n') := by
  rw [toList_listing, Text.splitOn_intercalate_newline]
  exact fun none => rows_ne_nil some (List.map_eq_nil_iff.mp none)

theorem splitOn_listing_eq_rows_iff :
    (listing instructions).toList.splitOn '\n' = (rows instructions).map String.toList ↔
      instructions ≠ [] ∧ ∀ instruction ∈ instructions,
        OneLine (instruction.row (lineWidth instructions)).toList := by
  by_cases none : instructions = []
  · subst none
    exact iff_of_false (List.splitOn_ne_nil _ _) fun some => some.1 rfl
  · rw [splitOn_listing_eq none, Text.flatMap_splitOn_eq_iff, oneLine_rows_iff, and_iff_right none]

/-- The row of a decoded instruction stands on one line if and only if each text that it shows as it
is does. -/
theorem oneLine_row_iff_of_decode (registered : table ∈ Opcode.registry)
    (decoded : unit.decode table = .ok instructions) (member : instruction ∈ instructions)
    (width : Nat) :
    OneLine (instruction.row width).toList ↔
      ∀ text, (instruction.raw table).Shows table unit text → OneLine text.toList := by
  have proper := proper_of_decode decoded instruction member
  have word := proper.isWord (Opcode.legible_of_mem_registry registered)
  exact (oneLine_row_iff word proper.unmeant).trans (oneLine_meaning_iff decoded member)

end Instruction

namespace CodeUnit

/-- **One row for each instruction, unless a text breaks it.** The lines of a listing are the rows
of its layout, each of them broken at the newlines that it holds. The row of an instruction holds
one if and only if the instruction shows a text with a newline as it is: a name of the unit, or, in
a constant, the name or the file name of another unit, or a long integer. So the lines are the rows
of the layout, and nothing else, if and only if there is an instruction and none shows such a
text. -/
theorem splitOn_listing {table : Opcode.Table} (registered : table ∈ Opcode.registry)
    {unit : CodeUnit} {instructions : List Instruction}
    (decoded : unit.decode table = .ok instructions) :
    (instructions ≠ [] → (Instruction.listing instructions).toList.splitOn '\n' =
      (Instruction.layout instructions).flatMap fun row => row.toList.splitOn '\n') ∧
    (∀ instruction ∈ instructions, ∀ width,
      (instruction.row width).toList.splitOn '\n' = [(instruction.row width).toList] ↔
        ∀ text, (instruction.raw table).Shows table unit text → OneLine text.toList) ∧
    ((Instruction.listing instructions).toList.splitOn '\n' =
        (Instruction.layout instructions).map String.toList ↔
      instructions ≠ [] ∧ ∀ instruction ∈ instructions, ∀ text,
        (instruction.raw table).Shows table unit text → OneLine text.toList) := by
  rw [← Instruction.rows_eq_layout decoded]
  refine ⟨fun some => ?_, fun instruction member width => ?_, ?_⟩
  · rw [Instruction.splitOn_listing_eq some, List.flatMap_map]
  · rw [Text.splitOn_eq_singleton_iff]
    exact Instruction.oneLine_row_iff_of_decode registered decoded member width
  · rw [Instruction.splitOn_listing_eq_rows_iff]
    refine and_congr_right fun _ => forall₂_congr fun instruction member => ?_
    exact Instruction.oneLine_row_iff_of_decode registered decoded member _

/-- The name of a variable that passes for a name, a row, and another name. -/
def forgedName : String :=
  "x)\n              3 LOAD_NAME                1 (y"

/-- A unit that loads one name. -/
def forging : CodeUnit :=
  { CodeUnit.blank .modern "f" with code := [101, 0, 0], names := [forgedName] }

/-- A unit that loads two names. -/
def loading : CodeUnit :=
  { CodeUnit.blank .modern "f" with code := [101, 0, 0, 101, 1, 0], names := ["x", "y"] }

/-- The first of the loads of a unit, of a name. -/
def firstLoad (name : String) : Instruction where
  mnemonic := "LOAD_NAME"
  opcode := 101
  arg := some 0
  meaning := name
  offset := 0
  startsLine := some 0
  isJumpTarget := false

def loads : List Instruction :=
  [firstLoad "x",
   { mnemonic := "LOAD_NAME", opcode := 101, arg := some 1, meaning := "y", offset := 3,
     startsLine := none, isJumpTarget := false }]

theorem singleLined_loading : loading.SingleLined where
  names := List.forall_mem_cons.mpr ⟨.of_contains_eq_false rfl,
    List.forall_mem_singleton.mpr (.of_contains_eq_false rfl)⟩
  varnames := List.forall_mem_nil _
  freevars := List.forall_mem_nil _
  cellvars := List.forall_mem_nil _
  consts := List.forall_mem_nil _

/-- One load and two have the same listing: its lines are the rows of the two. -/
theorem splitOn_listing_forging :
    ∃ table ∈ Opcode.registry,
      forging.decode table = .ok [firstLoad forgedName] ∧ loading.decode table = .ok loads ∧
      Instruction.listing [firstLoad forgedName] = Instruction.listing loads ∧
      (Instruction.listing loads).toList.splitOn '\n' =
        (Instruction.layout loads).map String.toList ∧
      (Instruction.listing [firstLoad forgedName]).toList.splitOn '\n' ≠
        (Instruction.layout [firstLoad forgedName]).map String.toList := by
  have stands : Opcode.registry[13]? = some (.ofSteps ⟨3, 4⟩ .cpython Opcode.Modern.steps34) := rfl
  have registered := List.mem_of_getElem? stands
  have decoded :
      forging.decode (.ofSteps ⟨3, 4⟩ .cpython Opcode.Modern.steps34) =
        .ok [firstLoad forgedName] ∧
      loading.decode (.ofSteps ⟨3, 4⟩ .cpython Opcode.Modern.steps34) = .ok loads := by
    decide +kernel
  have plain :
      (Opcode.Table.ofSteps ⟨3, 4⟩ .cpython Opcode.Modern.steps34).extender ≠ some 101 := by
    intro extender
    have own := Instruction.proper_of_decode decoded.1 _ List.mem_cons_self
    have named := own.mnemonic_eq.trans ((Opcode.extender_eq_some_iff registered).mp extender)
    exact absurd named (by decide)
  obtain ⟨-, -, forged⟩ := splitOn_listing registered decoded.1
  obtain ⟨-, -, exact⟩ := splitOn_listing registered decoded.2
  refine ⟨_, registered, decoded.1, decoded.2, by decide +kernel, exact.mpr ⟨nofun, ?_⟩, ?_⟩
  · rintro instruction - text ⟨-, kind, -, arg, -, shows⟩
    exact singleLined_loading.oneLine_of_shows shows
  · intro whole
    have oneLine := (forged.mp whole).2 _ List.mem_cons_self forgedName
      ⟨plain, .name, rfl, 0, rfl, rfl⟩
    exact oneLine '\n' (by decide) rfl

end CodeUnit

end PycListing
