import PycListing.Proofs.Instruction.Row
import PycListing.Proofs.Instruction.Shown

/-! # Listings are lossless

Under any registered table the listing of a unit determines its instructions, every field of them
(`PycListing.CodeUnit.instructions_eq_of_listing_eq`). A listing is split at its newlines, the empty
rows ahead of source lines are left out, and the other rows are read one by one. Names and literals
stand in rows as they are, so no name that a row can show may hold a newline
(`PycListing.CodeUnit.SingleLined`).
-/

namespace PycListing

open Text (OneLine)

namespace Instruction

variable {table : Opcode.Table} {instructions others : List Instruction}

/-! ## Rows of a listing -/

/-- Where the column of source lines is missing, no instruction starts a line. -/
theorem startsLine_eq_none (missing : lineWidth instructions = 0) :
    ∀ instruction ∈ instructions, instruction.startsLine = none := by
  cases largest : (instructions.filterMap Instruction.startsLine).max? with
  | none => exact List.filterMap_eq_nil_iff.mp (List.max?_eq_none_iff.mp largest)
  | some line =>
      have wide : 3 ≤ lineWidth instructions := by
        rw [lineWidth, largest]
        exact Nat.le_max_left _ _
      omega

/-- A row of a listing is that of an instruction, or empty. -/
theorem eq_of_mem_rows {text : String} (member : text ∈ rows instructions) :
    text = "" ∨ ∃ instruction ∈ instructions, text = instruction.row (lineWidth instructions) := by
  unfold rows at member
  generalize lineWidth instructions = width at member ⊢
  cases instructions with
  | nil => cases member
  | cons first rest =>
      rcases List.mem_cons.mp member with own | inRest
      · exact .inr ⟨first, List.mem_cons_self, own⟩
      · obtain ⟨instruction, inList, inRows⟩ := List.mem_flatMap.mp inRest
        have found : text = "" ∨ text = instruction.row width := by
          unfold rowsOf at inRows
          split at inRows
          · simpa only [List.mem_cons, List.not_mem_nil, or_false] using inRows
          · exact .inr (List.mem_singleton.mp inRows)
        exact found.imp_right fun own => ⟨instruction, List.mem_cons_of_mem _ inList, own⟩

theorem filter_rowsOf {instruction : Instruction} {width : Nat}
    (some : (instruction.row width).toList ≠ []) :
    ((instruction.rowsOf width).map String.toList).filter (!·.isEmpty) =
      [(instruction.row width).toList] := by
  have kept : (!(instruction.row width).toList.isEmpty) = true := by
    rwa [Bool.not_eq_true', List.isEmpty_eq_false_iff]
  have dropped : (!"".toList.isEmpty) = false := rfl
  unfold rowsOf
  split
  · rw [List.map_cons, List.map_singleton, List.filter_cons, if_neg (Bool.eq_false_iff.mp dropped),
      List.filter_singleton, kept, cond_true]
  · rw [List.map_singleton, List.filter_singleton, kept, cond_true]

/-- The rows that are not empty are those of the instructions. -/
theorem filter_rows (some : ∀ instruction ∈ instructions,
      (instruction.row (lineWidth instructions)).toList ≠ []) :
    ((rows instructions).map String.toList).filter (!·.isEmpty) =
      instructions.map fun instruction => (instruction.row (lineWidth instructions)).toList := by
  unfold rows
  generalize lineWidth instructions = width at some ⊢
  cases instructions with
  | nil => rfl
  | cons first rest =>
      obtain ⟨own, others⟩ := List.forall_mem_cons.mp some
      have kept : (!(first.row width).toList.isEmpty) = true := by
        rwa [Bool.not_eq_true', List.isEmpty_eq_false_iff]
      have each : ((rest.flatMap (rowsOf width)).map String.toList).filter (!·.isEmpty) =
          rest.map fun instruction => (instruction.row width).toList := by
        rw [List.map_flatMap, List.filter_flatMap, ← List.flatMap_pure_eq_map]
        exact List.flatMap_congr fun instruction member => filter_rowsOf (others instruction member)
      dsimp only
      rw [List.map_cons, List.filter_cons, if_pos kept, each, List.map_cons]

/-! ## Reading a listing -/

/-- An instruction whose row can be read. -/
structure Readable (table : Opcode.Table) (instruction : Instruction) : Prop
    extends instruction.Proper table where
  oneLine : OneLine instruction.meaning.toList

theorem toList_listing (instructions : List Instruction) :
    (listing instructions).toList = ['\n'].intercalate ((rows instructions).map String.toList) := by
  rw [listing, String.toList_intercalate]
  rfl

/-- The lines of a listing that are not empty are the rows of its instructions. -/
theorem lines_listing (legible : table.Legible)
    (readable : ∀ instruction ∈ instructions, instruction.Readable table) :
    Text.lines (listing instructions).toList =
      instructions.map fun instruction => (instruction.row (lineWidth instructions)).toList := by
  have word := fun instruction member => (readable instruction member).isWord legible
  have oneLine : ∀ line ∈ (rows instructions).map String.toList, OneLine line := by
    intro line member
    obtain ⟨text, inRows, rfl⟩ := List.mem_map.mp member
    rcases eq_of_mem_rows inRows with rfl | ⟨instruction, inList, rfl⟩
    · exact .nil
    · have own := readable instruction inList
      exact (oneLine_row_iff (word instruction inList) own.unmeant).mpr own.oneLine
  rw [toList_listing, Text.lines_intercalate oneLine]
  exact filter_rows fun instruction member => row_ne_nil (word instruction member)

/-- Lists of instructions that have the same listing are the same. -/
theorem listing_inj (legible : table.Legible)
    (readable : ∀ instruction ∈ instructions, instruction.Readable table)
    (otherReadable : ∀ instruction ∈ others, instruction.Readable table)
    (same : listing instructions = listing others) : instructions = others := by
  have lines := congrArg (fun text => Text.lines text.toList) same
  rw [lines_listing legible readable, lines_listing legible otherReadable] at lines
  have lengths : instructions.length = others.length := by
    simpa only [List.length_map] using congrArg List.length lines
  refine List.ext_getElem lengths fun index inFirst inSecond => ?_
  have first := List.getElem_mem inFirst
  have second := List.getElem_mem inSecond
  have row := List.getElem_of_eq lines (by rwa [List.length_map])
  rw [List.getElem_map, List.getElem_map] at row
  exact row_inj legible (readable _ first).toProper (otherReadable _ second).toProper
    (fun missing => startsLine_eq_none missing _ first)
    (fun missing => startsLine_eq_none missing _ second) (String.toList_inj.mp row)

end Instruction

/-! ## Decoded instructions -/

/-- A unit whose listing shows no name with a newline: neither its own names nor, in its constants,
the names and file names of units. Its long integers are in decimal. -/
structure CodeUnit.SingleLined (unit : CodeUnit) : Prop where
  names : ∀ name ∈ unit.names, OneLine name.toList
  varnames : ∀ name ∈ unit.varnames, OneLine name.toList
  freevars : ∀ name ∈ unit.freevars, OneLine name.toList
  cellvars : ∀ name ∈ unit.cellvars, OneLine name.toList
  consts : ∀ value ∈ unit.consts, ∀ inner, Value.Within inner value → inner.SingleLine

/-- What arguments show as it is stands on one line. -/
theorem CodeUnit.SingleLined.oneLine_of_shows {unit : CodeUnit} (lines : unit.SingleLined)
    {kind : Opcode.ArgumentKind} {index : Nat} {text : String}
    (shows : unit.Shows kind index text) : OneLine text.toList := by
  cases kind with
  | constant =>
      obtain ⟨value, stands, inner, shown, own⟩ := shows
      have single := lines.consts value (List.mem_of_getElem? stands) inner shown.within
      exact single.oneLine_of_mem_unquoted text own
  | name => exact lines.names _ (List.mem_of_getElem? shows)
  | «variable» => exact lines.varnames _ (List.mem_of_getElem? shows)
  | cell =>
      exact (List.mem_append.mp (List.mem_of_getElem? shows)).elim (lines.cellvars _)
        (lines.freevars _)
  | _ => cases shows

namespace Instruction

variable {table : Opcode.Table} {unit : CodeUnit} {instructions : List Instruction}

/-- Decoding names each instruction after its opcode, and an instruction without an argument means
nothing. -/
theorem proper_of_decode (decoded : unit.decode table = .ok instructions) :
    ∀ instruction ∈ instructions, instruction.Proper table := by
  intro instruction member
  obtain ⟨meaning, meant, same⟩ := eq_of_ofRaw ((ofRaw_of_decode decoded).2 instruction member)
  refine ⟨congrArg mnemonic same, fun absent => ?_⟩
  have nothing := Except.ok.inj (meant.symm.trans (meaning?_of_absent absent))
  exact (congrArg Instruction.meaning same).trans nothing

theorem readable_of_decode (lines : unit.SingleLined)
    (decoded : unit.decode table = .ok instructions) :
    ∀ instruction ∈ instructions, instruction.Readable table := by
  intro instruction member
  refine ⟨proper_of_decode decoded instruction member, ?_⟩
  refine (oneLine_meaning_iff decoded member).mpr fun text shows => ?_
  obtain ⟨-, kind, -, arg, -, shows⟩ := shows
  exact lines.oneLine_of_shows shows

end Instruction

/-- **Listings are lossless.** Units that decode under one table to instructions with the same
listing decode to the same instructions. -/
theorem CodeUnit.instructions_eq_of_listing_eq {table : Opcode.Table}
    (registered : table ∈ Opcode.registry) {first second : CodeUnit} (lines : first.SingleLined)
    (otherLines : second.SingleLined) {instructions others : List Instruction}
    (decoded : first.decode table = .ok instructions)
    (otherDecoded : second.decode table = .ok others)
    (same : Instruction.listing instructions = Instruction.listing others) :
    instructions = others :=
  Instruction.listing_inj (Opcode.legible_of_mem_registry registered)
    (Instruction.readable_of_decode lines decoded)
    (Instruction.readable_of_decode otherLines otherDecoded) same

/-- A unit of two source lines, which jumps to where it returns its only constant. -/
def CodeUnit.returning (constant : Value) : CodeUnit :=
  { CodeUnit.blank .modern "f" with
    code := [110, 0, 0, 100, 0, 0, 83], consts := [constant], firstLine := 7, lineTable := [3, 1] }

/-- The instructions of a unit that returns the constant one. -/
def CodeUnit.returningOne : List Instruction :=
  [{ mnemonic := "JUMP_FORWARD", opcode := 110, arg := some 0, meaning := "to 3", offset := 0,
     startsLine := some 7, isJumpTarget := false },
   { mnemonic := "LOAD_CONST", opcode := 100, arg := some 0, meaning := "1", offset := 3,
     startsLine := some 8, isJumpTarget := true },
   { mnemonic := "RETURN_VALUE", opcode := 83, arg := none, meaning := "", offset := 6,
     startsLine := none, isJumpTarget := false }]

theorem CodeUnit.singleLined_returning {constant : Value} (partless : constant.parts = [])
    (own : constant.SingleLine) : (CodeUnit.returning constant).SingleLined where
  names := List.forall_mem_nil _
  varnames := List.forall_mem_nil _
  freevars := List.forall_mem_nil _
  cellvars := List.forall_mem_nil _
  consts := by
    refine List.forall_mem_singleton.mpr fun inner within => ?_
    rcases Value.within_iff.mp within with rfl | ⟨part, member, -⟩
    · exact own
    · rw [partless] at member
      cases member

/-- Two constants of one literal, in units that differ: the instructions are the same. -/
theorem CodeUnit.instructions_eq_of_listing_eq_one :
    (returning (.int 1)).SingleLined ∧ (returning (.long "1")).SingleLined ∧
      ∃ table ∈ Opcode.registry, ∃ instructions others,
        (returning (.int 1)).decode table = .ok instructions ∧
        (returning (.long "1")).decode table = .ok others ∧
        Instruction.listing instructions = Instruction.listing others ∧ instructions = others := by
  have int : (Value.int 1).SingleLine := trivial
  have long : (Value.long "1").SingleLine := List.all_eq_true.mp rfl
  have lines := singleLined_returning rfl int
  have otherLines := singleLined_returning rfl long
  have stands : Opcode.registry[13]? = some (.ofSteps ⟨3, 4⟩ .cpython Opcode.Modern.steps34) := rfl
  have registered := List.mem_of_getElem? stands
  have decoded :
      (returning (.int 1)).decode (.ofSteps ⟨3, 4⟩ .cpython Opcode.Modern.steps34) =
        .ok returningOne ∧
      (returning (.long "1")).decode (.ofSteps ⟨3, 4⟩ .cpython Opcode.Modern.steps34) =
        .ok returningOne := by
    decide +kernel
  exact ⟨lines, otherLines, _, registered, returningOne, returningOne, decoded.1, decoded.2, rfl,
    instructions_eq_of_listing_eq registered lines otherLines decoded.1 decoded.2 rfl⟩

end PycListing
