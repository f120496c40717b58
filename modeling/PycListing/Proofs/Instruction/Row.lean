import PycListing.Instruction.Row
import PycListing.Proofs.Opcode.Mnemonics
import PycListing.Proofs.Text.Lines
import PycListing.Proofs.Text.Words

/-! # Reading rows

The row of an instruction of a legible table determines the instruction, whatever the width of the
line column (`PycListing.Instruction.row_inj`). A row is cut at its mnemonic, the first word that
looks neither like a number nor like a jump mark. The words ahead of it are the source line, the
jump mark and the offset; behind it stand the argument and, in parentheses, what the argument
denotes.
-/

namespace PycListing.Instruction

open Text (OneLine words words_eq_singleton eq_of_append_eq)

variable {table : Opcode.Table} {instruction other : Instruction} {width : Nat}

/-! ## Parts of a row -/

/-- The columns ahead of the mnemonic. -/
def leadColumns (width : Nat) (instruction : Instruction) : List String :=
  lineColumn width instruction.startsLine ++
    ["   ", if instruction.isJumpTarget then ">>" else "  ",
     Text.padLeft 4 (toString instruction.offset)]

/-- The text of a row ahead of the mnemonic. -/
def lead (width : Nat) (instruction : Instruction) : List Char :=
  (instruction.leadColumns width).flatMap fun column => column.toList ++ [' ']

/-- What an argument denotes, as it stands behind the argument. -/
def remark (meaning : String) : List Char :=
  if meaning.isEmpty then [] else ' ' :: '(' :: (meaning.toList ++ [')'])

/-- How the text of a row behind the mnemonic is put together. -/
inductive Trail (instruction : Instruction) : List Char → Prop where
  | absent (none : instruction.arg = none) : Trail instruction []
  | argument {arg : UInt32} (some : instruction.arg = some arg) (gap : Nat) :
      Trail instruction (List.replicate (gap + 1) ' ' ++
        (Nat.toDigits 10 arg.toNat ++ remark instruction.meaning))

theorem columns_eq (width : Nat) (instruction : Instruction) :
    instruction.columns width = instruction.leadColumns width ++
      Text.padRight 20 instruction.mnemonic :: instruction.argumentColumns := by
  rw [columns, leadColumns, List.append_assoc, List.append_assoc]
  rfl

theorem argumentColumns_of_absent (absent : instruction.arg = none) :
    instruction.argumentColumns = [] := by
  rw [argumentColumns, absent]

theorem intercalate_argumentColumns {arg : UInt32} (present : instruction.arg = some arg)
    (name : String) :
    [' '].intercalate ((name :: instruction.argumentColumns).map String.toList) =
      name.toList ++ ' ' :: ((Text.padLeft 5 (toString arg.toNat)).toList ++
        remark instruction.meaning) := by
  have opening : "(".toList = ['('] := rfl
  have closing : ")".toList = [')'] := rfl
  rw [argumentColumns, present, remark]
  dsimp only
  split
  · rw [List.map_cons, List.map_singleton, List.intercalate_cons_cons, List.intercalate_singleton,
      List.append_nil, List.append_assoc, List.singleton_append]
  · rw [List.map_cons, List.map_cons, List.map_singleton, List.intercalate_cons_cons,
      List.intercalate_cons_cons, List.intercalate_singleton, String.toList_append,
      String.toList_append, opening, closing]
    simp only [List.append_assoc, List.cons_append, List.nil_append]

/-- An argument ends with something else than a blank, with or without its meaning. -/
theorem trimEndChars_append_argument (front : List Char) (n : Nat) (meaning : String) :
    Text.trimEndChars (front ++ (Nat.toDigits 10 n ++ remark meaning)) =
      front ++ (Nat.toDigits 10 n ++ remark meaning) := by
  unfold remark
  split
  · rw [List.append_nil]
    exact Text.trimEndChars_append_word front Nat.toDigits_ne_nil
      fun _ => Text.isBlank_eq_false_of_mem_toDigits
  · have close : ∀ c ∈ [')'], Text.isBlank c = false := List.forall_mem_singleton.mpr rfl
    have ends := Text.trimEndChars_append_word
      (front ++ (Nat.toDigits 10 n ++ ' ' :: '(' :: meaning.toList)) (List.cons_ne_nil _ _) close
    rwa [List.append_assoc, List.append_assoc] at ends

/-- The columns of a row, joined, up to the blanks at its end. -/
theorem toList_row (width : Nat) (instruction : Instruction) :
    (instruction.row width).toList = Text.trimEndChars (instruction.lead width ++
      [' '].intercalate ((Text.padRight 20 instruction.mnemonic ::
        instruction.argumentColumns).map String.toList)) := by
  rw [row, Text.trimEnd, String.toList_ofList, String.toList_intercalate, columns_eq]
  exact congrArg Text.trimEndChars (Text.intercalate_append_cons _ _ _)

/-- A row is what stands ahead of the mnemonic, the mnemonic, and what stands behind it. -/
theorem exists_trail (width : Nat) (isWord : Opcode.IsWord instruction.mnemonic.toList) :
    ∃ trail, Trail instruction trail ∧ (instruction.row width).toList =
      instruction.lead width ++ (instruction.mnemonic.toList ++ trail) := by
  obtain ⟨first, rest, starts, -, -, solid⟩ := isWord
  have some : instruction.mnemonic.toList ≠ [] := starts ▸ List.cons_ne_nil _ _
  cases arg : instruction.arg with
  | none =>
      refine ⟨[], .absent arg, ?_⟩
      have blank : ∀ c ∈ List.replicate (20 - instruction.mnemonic.length) ' ',
          Text.isBlank c = true :=
        fun _ member => List.eq_of_mem_replicate member ▸ Text.isBlank_space
      rw [toList_row, argumentColumns_of_absent arg, List.map_singleton,
        List.intercalate_singleton, Text.toList_padRight, ← List.append_assoc,
        Text.trimEndChars_append_blanks _ blank, Text.trimEndChars_append_word _ some solid,
        List.append_nil]
  | some value =>
      refine ⟨_, .argument arg
        (20 - instruction.mnemonic.length + (5 - (toString value.toNat).length)), ?_⟩
      rw [toList_row, intercalate_argumentColumns arg, Text.toList_padLeft,
        Text.toList_toString_nat, Text.toList_padRight, List.append_assoc, List.append_assoc,
        Text.replicate_append_space_cons, ← List.append_assoc instruction.mnemonic.toList,
        ← List.append_assoc (lead _ _), trimEndChars_append_argument, List.append_assoc,
        List.append_assoc]

/-! ## Ahead of the mnemonic -/

/-- The characters that can stand ahead of a mnemonic. -/
def isLead (c : Char) : Bool :=
  c == ' ' || c == '>' || c.isDigit

theorem isLead_of_mem_padLeft {width : Nat} {text : String}
    (each : ∀ c ∈ text.toList, isLead c = true) :
    ∀ c ∈ (Text.padLeft width text).toList, isLead c = true := by
  rw [Text.toList_padLeft]
  exact List.forall_mem_append.mpr
    ⟨fun _ member => List.eq_of_mem_replicate member ▸ rfl, each⟩

theorem isLead_of_mem_toString {n : Nat} : ∀ c ∈ (toString n).toList, isLead c = true := by
  intro c member
  rw [Text.toList_toString_nat] at member
  rw [isLead, Nat.isDigit_of_mem_toDigits (by decide) (by decide) member, Bool.or_true]

theorem isLead_of_mem_lead : ∀ c ∈ instruction.lead width, isLead c = true := by
  have column : ∀ column ∈ instruction.leadColumns width, ∀ c ∈ column.toList, isLead c = true := by
    refine List.forall_mem_append.mpr ⟨?_, ?_⟩
    · unfold lineColumn
      split
      · exact List.forall_mem_nil _
      · split
        · exact List.forall_mem_singleton.mpr (isLead_of_mem_padLeft isLead_of_mem_toString)
        · exact List.forall_mem_singleton.mpr (isLead_of_mem_padLeft (List.forall_mem_nil _))
    · refine List.forall_mem_cons.mpr
        ⟨List.all_eq_true.mp rfl, List.forall_mem_cons.mpr ⟨?_, ?_⟩⟩
      · split <;> exact List.all_eq_true.mp rfl
      · exact List.forall_mem_singleton.mpr (isLead_of_mem_padLeft isLead_of_mem_toString)
  intro c member
  obtain ⟨text, inColumns, inText⟩ := List.mem_flatMap.mp member
  rcases List.mem_append.mp inText with inColumn | behind
  · exact column text inColumns c inColumn
  · rw [List.mem_singleton.mp behind]
    rfl

/-- The words ahead of a mnemonic: the source line, the jump mark and the offset. -/
def leadWords (instruction : Instruction) : List (List Char) :=
  instruction.startsLine.toList.map (fun line => Nat.toDigits 10 line.toNat) ++
    (if instruction.isJumpTarget then [['>', '>']] else []) ++ [Nat.toDigits 10 instruction.offset]

theorem words_padLeft_nat (width n : Nat) :
    words (Text.padLeft width (toString n)).toList = [Nat.toDigits 10 n] := by
  rw [Text.words_padLeft, Text.toList_toString_nat]
  refine words_eq_singleton Nat.toDigits_ne_nil fun member => ?_
  exact Text.ne_space_of_isBlank_eq_false (Text.isBlank_eq_false_of_mem_toDigits member) rfl

theorem words_lineColumn {startsLine : Option UInt32} (numbered : width = 0 → startsLine = none) :
    (lineColumn width startsLine).flatMap (fun column => words column.toList) =
      startsLine.toList.map fun line => Nat.toDigits 10 line.toNat := by
  unfold lineColumn
  by_cases unnumbered : width = 0
  · rw [if_pos unnumbered, numbered unnumbered]
    rfl
  · rw [if_neg unnumbered]
    cases startsLine with
    | none => exact (List.flatMap_singleton _ _).trans (Text.words_padLeft _ _)
    | some line => exact (List.flatMap_singleton _ _).trans (words_padLeft_nat _ _)

theorem words_lead (numbered : width = 0 → instruction.startsLine = none) :
    words (instruction.lead width) = instruction.leadWords := by
  have mark : words (if instruction.isJumpTarget then ">>" else "  ").toList =
      if instruction.isJumpTarget then [['>', '>']] else [] := by
    split
    · rfl
    · rfl
  have indent : words "   ".toList = [] := rfl
  rw [lead, Text.words_flatMap_column, leadColumns, List.flatMap_append,
    words_lineColumn numbered, List.flatMap_cons,
    List.flatMap_cons, List.flatMap_singleton, indent, mark, words_padLeft_nat, List.nil_append,
    leadWords, List.append_assoc]

/-- The words ahead of mnemonics tell source lines, jump marks and offsets apart. -/
theorem leadWords_inj (same : instruction.leadWords = other.leadWords) :
    instruction.startsLine = other.startsLine ∧ instruction.isJumpTarget = other.isJumpTarget ∧
      instruction.offset = other.offset := by
  have differ (n : Nat) : Nat.toDigits 10 n ≠ ['>', '>'] := by
    intro isMark
    have digit : '>'.isDigit = true :=
      Nat.isDigit_of_mem_toDigits (by decide) (by decide) (isMark ▸ List.mem_cons_self)
    cases digit
  have marked (instruction : Instruction) :
      instruction.isJumpTarget = true ↔ ['>', '>'] ∈ instruction.leadWords := by
    simp [leadWords, differ, (differ _).symm]
  obtain ⟨fronts, offsets⟩ := List.append_inj' same rfl
  have jump : instruction.isJumpTarget = other.isJumpTarget := by
    rw [Bool.eq_iff_iff, marked, marked, same]
  rw [jump] at fronts
  have lines := List.append_cancel_right fronts
  have injective : Function.Injective fun line : UInt32 => Nat.toDigits 10 line.toNat :=
    fun _ _ equal => UInt32.toNat_inj.mp (Text.toDigits_injective equal)
  have starts := congrArg List.head? (List.map_injective_iff.mpr injective lines)
  rw [Option.head?_toList, Option.head?_toList] at starts
  exact ⟨starts, jump, Text.toDigits_injective (List.singleton_injective offsets)⟩

/-! ## Behind the mnemonic -/

theorem remark_injective : Function.Injective remark := by
  intro meaning other same
  unfold remark at same
  by_cases empty : meaning.isEmpty
  · by_cases otherEmpty : other.isEmpty
    · rw [String.isEmpty_iff.mp empty, String.isEmpty_iff.mp otherEmpty]
    · rw [if_pos empty, if_neg otherEmpty] at same
      cases same
  · by_cases otherEmpty : other.isEmpty
    · rw [if_neg empty, if_pos otherEmpty] at same
      cases same
    · rw [if_neg empty, if_neg otherEmpty] at same
      have texts := (List.cons.inj (List.cons.inj same).2).2
      exact String.toList_inj.mp (List.append_cancel_right texts)

theorem remark_head {meaning : String} : ∀ c ∈ (remark meaning).head?, c.isDigit = false := by
  unfold remark
  split
  · nofun
  · rintro _ ⟨⟩
    rfl

theorem head_toDigits_append {n : Nat} {rest : List Char} :
    ∀ c ∈ (Nat.toDigits 10 n ++ rest).head?, (c == ' ') = false := by
  intro c front
  rw [List.head?_append_of_ne_nil _ Nat.toDigits_ne_nil] at front
  have solid := Text.isBlank_eq_false_of_mem_toDigits (List.mem_of_mem_head? front)
  exact beq_eq_false_iff_ne.mpr (Text.ne_space_of_isBlank_eq_false solid)

theorem Trail.head {trail : List Char} (isTrail : Trail instruction trail) :
    ∀ c ∈ trail.head?, (c != ' ') = false := by
  cases isTrail with
  | absent => nofun
  | argument =>
      rw [List.replicate_succ]
      rintro _ ⟨⟩
      rfl

/-- What stands behind mnemonics tells arguments apart, and what they denote. -/
theorem Trail.inj {trail otherTrail : List Char} (own : Trail instruction trail)
    (others : Trail other otherTrail) (unmeant : instruction.arg = none → instruction.meaning = "")
    (otherUnmeant : other.arg = none → other.meaning = "") (same : trail = otherTrail) :
    instruction.arg = other.arg ∧ instruction.meaning = other.meaning := by
  have spaces {count : Nat} : ∀ c ∈ List.replicate count ' ', (c == ' ') = true :=
    fun _ member => beq_iff_eq.mpr (List.eq_of_mem_replicate member)
  have digits {n : Nat} : ∀ c ∈ Nat.toDigits 10 n, c.isDigit = true :=
    fun _ => Nat.isDigit_of_mem_toDigits (by decide) (by decide)
  cases own with
  | absent none =>
      cases others with
      | absent otherNone =>
          exact ⟨none.trans otherNone.symm, (unmeant none).trans (otherUnmeant otherNone).symm⟩
      | argument => rw [List.replicate_succ] at same; cases same
  | argument some =>
      cases others with
      | absent => rw [List.replicate_succ] at same; cases same
      | argument otherSome =>
          obtain ⟨-, texts⟩ := eq_of_append_eq spaces spaces head_toDigits_append
            head_toDigits_append same
          obtain ⟨numbers, remarks⟩ := eq_of_append_eq digits digits remark_head remark_head texts
          rw [some, otherSome, UInt32.toNat_inj.mp (Text.toDigits_injective numbers)]
          exact ⟨rfl, remark_injective remarks⟩

/-! ## Whole rows -/

/-- An instruction that has the mnemonic that a table gives its opcode, and a meaning only with an
argument. -/
structure Proper (table : Opcode.Table) (instruction : Instruction) : Prop where
  mnemonic_eq : instruction.mnemonic = table.mnemonic instruction.opcode
  unmeant : instruction.arg = none → instruction.meaning = ""

theorem eq_of_fields (mnemonic : instruction.mnemonic = other.mnemonic)
    (opcode : instruction.opcode = other.opcode) (arg : instruction.arg = other.arg)
    (meaning : instruction.meaning = other.meaning) (offset : instruction.offset = other.offset)
    (startsLine : instruction.startsLine = other.startsLine)
    (isJumpTarget : instruction.isJumpTarget = other.isJumpTarget) : instruction = other := by
  cases instruction
  cases other
  cases mnemonic
  cases opcode
  cases arg
  cases meaning
  cases offset
  cases startsLine
  cases isJumpTarget
  rfl

theorem Proper.isWord (proper : instruction.Proper table) (legible : table.Legible) :
    Opcode.IsWord instruction.mnemonic.toList :=
  proper.mnemonic_eq ▸ legible.word _

/-- No mnemonic starts with a character that stands ahead of mnemonics. -/
theorem isLead_head {mnemonic rest : List Char} (isWord : Opcode.IsWord mnemonic) :
    ∀ c ∈ (mnemonic ++ rest).head?, isLead c = false := by
  obtain ⟨first, others, rfl, noDigit, noMark, solid⟩ := isWord
  have noSpace := Text.ne_space_of_isBlank_eq_false (solid first List.mem_cons_self)
  rintro _ ⟨⟩
  rw [isLead, noDigit, beq_eq_false_iff_ne.mpr noMark, beq_eq_false_iff_ne.mpr noSpace]
  rfl

theorem ne_space_of_mem_mnemonic {mnemonic : List Char} (isWord : Opcode.IsWord mnemonic) :
    ∀ c ∈ mnemonic, (c != ' ') = true := by
  obtain ⟨-, -, -, -, -, solid⟩ := isWord
  exact fun c member => bne_iff_ne.mpr (Text.ne_space_of_isBlank_eq_false (solid c member))

theorem row_ne_nil (isWord : Opcode.IsWord instruction.mnemonic.toList) :
    (instruction.row width).toList ≠ [] := by
  obtain ⟨trail, -, text⟩ := exists_trail width isWord
  obtain ⟨first, rest, starts, -⟩ := isWord
  rw [text, starts]
  exact List.append_ne_nil_of_right_ne_nil _ (List.cons_ne_nil _ _)

theorem oneLine_remark_iff {meaning : String} :
    OneLine (remark meaning) ↔ OneLine meaning.toList := by
  unfold remark
  split
  · rename_i empty
    rw [String.isEmpty_iff.mp empty]
    exact iff_of_true .nil .nil
  · have opening : OneLine [' ', '('] := .of_contains_eq_false rfl
    have closing : OneLine [')'] := .of_contains_eq_false rfl
    change OneLine ([' ', '('] ++ (meaning.toList ++ [')'])) ↔ _
    rw [OneLine.append_iff, OneLine.append_iff, and_iff_right opening, and_iff_left closing]

/-- A row stands on one line if and only if what its argument denotes does. -/
theorem oneLine_row_iff (isWord : Opcode.IsWord instruction.mnemonic.toList)
    (unmeant : instruction.arg = none → instruction.meaning = "") :
    OneLine (instruction.row width).toList ↔ OneLine instruction.meaning.toList := by
  obtain ⟨trail, isTrail, text⟩ := exists_trail width isWord
  obtain ⟨-, -, -, -, -, solid⟩ := isWord
  have lead : OneLine (instruction.lead width) := by
    rintro c member rfl
    cases isLead_of_mem_lead _ member
  have name : OneLine instruction.mnemonic.toList := by
    rintro c member rfl
    cases solid _ member
  rw [text, OneLine.append_iff, OneLine.append_iff, and_iff_right lead, and_iff_right name]
  cases isTrail with
  | absent none =>
      rw [unmeant none]
      exact iff_of_true .nil .nil
  | argument =>
      rw [OneLine.append_iff, OneLine.append_iff, and_iff_right (.replicate (by decide) _),
        and_iff_right (.toDigits _), oneLine_remark_iff]

/-- **Rows determine instructions**, whatever the widths of their line columns. -/
theorem row_inj (legible : table.Legible) (own : instruction.Proper table)
    (others : other.Proper table) {width otherWidth : Nat}
    (numbered : width = 0 → instruction.startsLine = none)
    (otherNumbered : otherWidth = 0 → other.startsLine = none)
    (same : instruction.row width = other.row otherWidth) : instruction = other := by
  have word := own.isWord legible
  have otherWord := others.isWord legible
  obtain ⟨trail, isTrail, text⟩ := exists_trail width word
  obtain ⟨otherTrail, isOtherTrail, otherText⟩ := exists_trail otherWidth otherWord
  have texts := text.symm.trans ((congrArg String.toList same).trans otherText)
  obtain ⟨leads, rests⟩ := eq_of_append_eq isLead_of_mem_lead isLead_of_mem_lead
    (isLead_head word) (isLead_head otherWord) texts
  obtain ⟨names, trails⟩ := eq_of_append_eq (ne_space_of_mem_mnemonic word)
    (ne_space_of_mem_mnemonic otherWord) isTrail.head isOtherTrail.head rests
  have mnemonic := String.toList_inj.mp names
  have opcode : instruction.opcode = other.opcode := by
    rw [own.mnemonic_eq, others.mnemonic_eq] at mnemonic
    exact legible.injective mnemonic
  have leadWords : instruction.leadWords = other.leadWords := by
    rw [← words_lead numbered, ← words_lead otherNumbered, leads]
  obtain ⟨startsLine, isJumpTarget, offset⟩ := leadWords_inj leadWords
  obtain ⟨arg, meaning⟩ := isTrail.inj isOtherTrail own.unmeant others.unmeant trails
  exact eq_of_fields mnemonic opcode arg meaning offset startsLine isJumpTarget

end PycListing.Instruction
