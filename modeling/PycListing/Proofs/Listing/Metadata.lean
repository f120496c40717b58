import PycListing.Listing
import PycListing.Proofs.Listing.Sections

/-! # Copies of a unit's metadata

A listing is the lines on its file and then what each unit contributes to it, in the order of the
units. A unit contributes its metadata at most once, but for the root of a listing in discovery
order: the lines ahead of the units hold the metadata of a root that has a filename, and the
section of a root that is not named as a module holds it again
(`PycListing.CompiledModule.metadata_copies`).
-/

namespace PycListing

namespace CompiledModule

/-- The lines on the tool, the file and its source. -/
def preamble (compiled : CompiledModule) (host : String) (options : ListingOptions) : String :=
  terminated ((if options.header then compiled.headerLines host else []) ++ compiled.sourceLines)

/-- What a unit's part of a listing is made of. -/
inductive Part where
  | emptyLine
  | metadata
  | instructions
  deriving DecidableEq

/-- The text of a part, given the lines of metadata and of instructions. -/
def Part.text (metadata instructions : String) : Part → String
  | .emptyLine => "\n"
  | .metadata => metadata ++ "\n"
  | .instructions => instructions ++ "\n"

/-- The parts that a unit contributes which stands at a place of an order. The first unit in
discovery order is the root. -/
def contribution (order : TraversalOrder) (place : Nat) (unit : CodeUnit) : List Part :=
  (if order = .discovery ∧ place = 0 ∧ unit.filename ≠ "" then [.metadata] else []) ++
    (if Disassembler.Headed unit order then [.emptyLine, .metadata] else []) ++ [.instructions]

def copies (order : TraversalOrder) (place : Nat) (unit : CodeUnit) : Nat :=
  (contribution order place unit).count .metadata

/-- What a unit contributes is written one part after the other. -/
def contributionText (table : Opcode.Table) (listing : CodeUnit → String) (order : TraversalOrder)
    (place : Nat) (unit : CodeUnit) : String :=
  String.join ((contribution order place unit).map
    (Part.text (unit.metadata table.version) (listing unit)))

theorem copies_eq (order : TraversalOrder) (place : Nat) (unit : CodeUnit) :
    copies order place unit =
      (if order = .discovery ∧ place = 0 ∧ unit.filename ≠ "" then 1 else 0) +
        (if Disassembler.Headed unit order then 1 else 0) := by
  rw [copies, contribution, List.count_append, List.count_append]
  split <;> split <;> rfl

theorem contributionText_eq (table : Opcode.Table) (listing : CodeUnit → String)
    (order : TraversalOrder) (place : Nat) (unit : CodeUnit) :
    contributionText table listing order place unit =
      (if order = .discovery ∧ place = 0 ∧ unit.filename ≠ "" then
        unit.metadata table.version ++ "\n"
      else "") ++ (Disassembler.standard table).sectionText order unit (listing unit) := by
  rw [contributionText, contribution, Disassembler.sectionText, List.map_append, List.map_append,
    String.join_append, String.join_append, String.append_assoc]
  congr 1
  · split <;> simp [Part.text]
  · split <;> simp [Part.text, String.append_assoc, Disassembler.standard]

theorem terminated_append (first second : List String) :
    terminated (first ++ second) = terminated first ++ terminated second := by
  rw [terminated, List.map_append, String.join_append]
  rfl

/-- Only the first unit in discovery order is the root, so the others contribute their sections. -/
theorem contributionText_eq_sectionText (table : Opcode.Table) (listing : CodeUnit → String)
    {order : TraversalOrder} {place : Nat} (unit : CodeUnit)
    (later : order = .dependency ∨ 0 < place) :
    contributionText table listing order place unit =
      (Disassembler.standard table).sectionText order unit (listing unit) := by
  have ahead : ¬(order = .discovery ∧ place = 0 ∧ unit.filename ≠ "") := by
    rintro ⟨rfl, rfl, _⟩
    rcases later with dependency | positive
    · cases dependency
    · exact absurd positive (Nat.lt_irrefl 0)
  rw [contributionText_eq, if_neg ahead, String.empty_append]

theorem contributionTexts_eq_sectionTexts (table : Opcode.Table) (listing : CodeUnit → String)
    {order : TraversalOrder} {first : Nat} (later : order = .dependency ∨ 0 < first)
    (units : List CodeUnit) :
    (units.zipIdx first).map (fun (unit, place) =>
        contributionText table listing order place unit) =
      units.map fun unit =>
        (Disassembler.standard table).sectionText order unit (listing unit) := by
  induction units generalizing first with
  | nil => rfl
  | cons unit rest ih =>
      rw [List.zipIdx_cons, List.map_cons, List.map_cons,
        ih (later.imp_right fun _ => Nat.succ_pos first)]
      congr 1
      exact contributionText_eq_sectionText table listing unit later

/-- The sections of the units, with the root's metadata ahead of them, are what the units
contribute. -/
theorem terminated_rootLines_append (table : Opcode.Table) (listing : CodeUnit → String)
    (root : CodeUnit) (order : TraversalOrder) :
    terminated (rootLines (Disassembler.standard table) order root) ++
        String.join ((root.inOrder order).map fun unit =>
          (Disassembler.standard table).sectionText order unit (listing unit)) =
      String.join ((root.inOrder order).zipIdx.map fun (unit, place) =>
        contributionText table listing order place unit) := by
  cases order with
  | dependency =>
      rw [contributionTexts_eq_sectionTexts table listing (.inl rfl)]
      exact String.empty_append
  | discovery =>
      rw [CodeUnit.inOrder, CodeUnit.discoveryOrder, Traversal.discover, List.zipIdx_cons,
        List.map_cons, List.map_cons, String.join_cons, String.join_cons,
        contributionTexts_eq_sectionTexts table listing (.inr Nat.one_pos), ← String.append_assoc]
      dsimp only
      rw [contributionText_eq]
      congr 2
      by_cases named : root.filename = ""
      · rw [rootLines, if_pos (String.isEmpty_iff.mpr named), if_neg fun ahead => ahead.2.2 named]
        rfl
      · rw [rootLines, if_neg fun absent => named (String.isEmpty_iff.mp absent),
          if_pos ⟨rfl, rfl, named⟩, terminated, List.map_singleton, String.join_cons,
          String.join_nil, String.append_empty]
        rfl

variable {compiled : CompiledModule} {host : String} {options : ListingOptions}

/-- A compiled file that has a listing is a unit whose version is known and all of whose units can
be decoded. -/
theorem exists_of_render_eq_ok {text : String} (rendered : compiled.render host options = .ok text) :
    ∃ root table units, compiled.root.unit? = some root ∧
      Opcode.resolve compiled.version compiled.flavor = .ok table ∧
      (Disassembler.standard table).render options.order root = .ok units ∧
      text = compiled.preamble host options ++
        (terminated (rootLines (Disassembler.standard table) options.order root) ++ units) := by
  rw [render, listing] at rendered
  cases isUnit : compiled.root.unit? with
  | none =>
      rw [isUnit] at rendered
      cases rendered
  | some root =>
      cases resolved : Opcode.resolve compiled.version compiled.flavor with
      | error error =>
          rw [isUnit, resolved] at rendered
          cases rendered
      | ok table =>
          cases listed : (Disassembler.standard table).render options.order root with
          | error error =>
              simp only [isUnit, resolved, listed] at rendered
              cases rendered
          | ok units =>
              simp only [isUnit, resolved, listed] at rendered
              cases rendered
              refine ⟨root, table, units, rfl, rfl, listed, ?_⟩
              rw [terminated_append, String.append_assoc]
              rfl

/-! ## How often -/

theorem mem_zipIdx_discovery_zero {root unit : CodeUnit} :
    (unit, 0) ∈ (root.inOrder .discovery).zipIdx ↔ unit = root := by
  rw [List.mk_mem_zipIdx_iff_getElem?, CodeUnit.inOrder, CodeUnit.discoveryOrder,
    Traversal.discover, List.getElem?_cons_zero, Option.some.injEq, eq_comm]

/-- The front of a listing in discovery order adds a copy to the first unit only. -/
theorem copies_le_one {order : TraversalOrder} {place : Nat} (unit : CodeUnit)
    (later : ¬(order = .discovery ∧ place = 0)) : copies order place unit ≤ 1 := by
  rw [copies_eq, if_neg fun ahead => later ⟨ahead.1, ahead.2.1⟩]
  split <;> decide

/-- A root that has a filename and is not named as a module is at the front and in its section. -/
theorem copies_root {root : CodeUnit} (named : root.filename ≠ "") :
    copies .discovery 0 root = if root.name = CodeUnit.moduleName then 1 else 2 := by
  rw [copies_eq, if_pos ⟨rfl, rfl, named⟩]
  by_cases module : root.name = CodeUnit.moduleName
  · have unheaded : ¬Disassembler.Headed root .discovery := fun headed => headed module
    rw [if_pos module, if_neg unheaded]
  · have headed : Disassembler.Headed root .discovery := module
    rw [if_neg module, if_pos headed]

theorem copies_root_of_filename_eq {root : CodeUnit} (unnamed : root.filename = "") :
    copies .discovery 0 root ≤ 1 := by
  rw [copies_eq, if_neg fun ahead => ahead.2.2 unnamed]
  split <;> decide

theorem forall_copies_le_one_iff (root : CodeUnit) (order : TraversalOrder) :
    (∀ unit place, (unit, place) ∈ (root.inOrder order).zipIdx → copies order place unit ≤ 1) ↔
      (order = .discovery → root.filename ≠ "" → root.name = CodeUnit.moduleName) := by
  constructor
  · rintro once rfl named
    have atFront := once root 0 (mem_zipIdx_discovery_zero.mpr rfl)
    rw [copies_root named] at atFront
    by_contra otherwise
    rw [if_neg otherwise] at atFront
    exact absurd atFront (by decide)
  · intro module unit place member
    by_cases front : order = .discovery ∧ place = 0
    · obtain ⟨rfl, rfl⟩ := front
      rw [mem_zipIdx_discovery_zero.mp member]
      by_cases named : root.filename = ""
      · exact copies_root_of_filename_eq named
      · rw [copies_root named, if_pos (module rfl named)]
    · exact copies_le_one unit front

/-- **A unit's metadata is listed at most once, but for a root in discovery order.** A root that
has a filename and is not named as a module is the one unit whose metadata is listed twice. -/
theorem metadata_copies {text : String} (rendered : compiled.render host options = .ok text) :
    ∃ root table, ∃ listing : CodeUnit → String,
      compiled.root.unit? = some root ∧
      Opcode.resolve compiled.version compiled.flavor = .ok table ∧
      (∀ unit ∈ root.inOrder options.order,
        unit.instructionListing table = .ok (listing unit)) ∧
      text = compiled.preamble host options ++
        String.join ((root.inOrder options.order).zipIdx.map fun (unit, place) =>
          contributionText table listing options.order place unit) ∧
      (∀ unit place, (unit, place) ∈ (root.inOrder options.order).zipIdx →
        copies options.order place unit ≤ 1 ∨
          (options.order = .discovery ∧ place = 0 ∧ unit = root)) ∧
      (options.order = .discovery → root.filename ≠ "" →
        (root, 0) ∈ (root.inOrder options.order).zipIdx ∧
          copies options.order 0 root = if root.name = CodeUnit.moduleName then 1 else 2) ∧
      ((∀ unit place, (unit, place) ∈ (root.inOrder options.order).zipIdx →
          copies options.order place unit ≤ 1) ↔
        (options.order = .discovery → root.filename ≠ "" → root.name = CodeUnit.moduleName)) := by
  obtain ⟨root, table, units, isUnit, resolved, listed, rfl⟩ := exists_of_render_eq_ok rendered
  obtain ⟨listing, writes⟩ := (Disassembler.exists_render_iff.mp ⟨units, listed⟩).exists_listing
  have decoded : ∀ unit ∈ root.inOrder options.order,
      (Disassembler.standard table).Writes unit (listing unit) :=
    Disassembler.writes_of_mem_inOrder writes
  refine ⟨root, table, listing, isUnit, resolved, decoded, ?_, ?_, ?_,
    forall_copies_le_one_iff root options.order⟩
  · rw [Disassembler.render_eq_join decoded, Except.ok.injEq] at listed
    rw [← listed, terminated_rootLines_append]
  · intro unit place member
    by_cases front : options.order = .discovery ∧ place = 0
    · obtain ⟨discovery, rfl⟩ := front
      rw [discovery] at member
      exact .inr ⟨discovery, rfl, mem_zipIdx_discovery_zero.mp member⟩
    · exact .inl (copies_le_one unit front)
  · intro discovery named
    rw [discovery]
    exact ⟨mem_zipIdx_discovery_zero.mpr rfl, copies_root named⟩

/-! ## A file whose root is not named as a module -/

/-- A root as compilers before version 2.5 name it. -/
def legacyRoot : CodeUnit :=
  { CodeUnit.blank .legacy "?" with filename := "m.py" }

def legacyModule : CompiledModule where
  version := ⟨2, 4⟩
  flavor := .cpython
  magic := 62061
  timestamp := 0
  sourceSize := none
  root := .code legacyRoot

theorem instructionListing_legacyRoot (table : Opcode.Table) :
    legacyRoot.instructionListing table = .ok "" := by
  have split : RawInstruction.split table legacyRoot.code = .ok [] := by
    rw [RawInstruction.split]
    split <;> rfl
  rw [CodeUnit.instructionListing, CodeUnit.decode, split]
  rfl

theorem inOrder_legacyRoot : legacyRoot.inOrder .discovery = [legacyRoot] := by
  rw [CodeUnit.inOrder, CodeUnit.discoveryOrder, Traversal.discover, Traversal.discover.eq_def]
  rfl

theorem render_legacyModule (host : String) :
    legacyModule.render host ⟨false, .discovery⟩ =
      .ok (legacyRoot.metadata ⟨2, 4⟩ ++ "\n" ++
        ("\n" ++ legacyRoot.metadata ⟨2, 4⟩ ++ "\n" ++ "" ++ "\n")) := by
  obtain ⟨table, resolved, version⟩ : ∃ table, Opcode.resolve ⟨2, 4⟩ .cpython = .ok table ∧
      table.version = ⟨2, 4⟩ := ⟨_, rfl, rfl⟩
  have writes : ∀ unit ∈ legacyRoot.inOrder .discovery,
      (Disassembler.standard table).Writes unit "" := by
    rw [inOrder_legacyRoot, List.forall_mem_singleton]
    exact instructionListing_legacyRoot table
  have units := Disassembler.render_eq_join writes
  have sections : (Disassembler.standard table).sectionText .discovery legacyRoot "" =
      "\n" ++ legacyRoot.metadata table.version ++ "\n" ++ "" ++ "\n" := rfl
  have ahead : rootLines (Disassembler.standard table) .discovery legacyRoot =
      [legacyRoot.metadata table.version] := rfl
  rw [inOrder_legacyRoot, List.map_singleton, sections] at units
  simp only [render, listing, legacyModule, Value.unit?, resolved, units, Except.map, ahead,
    version, terminated, sourceLines, UInt32.lt_irrefl, Bool.false_eq_true, ↓reduceIte,
    List.nil_append, List.map_singleton, String.join_cons, String.join_nil, String.append_empty]

theorem metadata_copies_legacyModule :
    legacyModule.render "" ⟨false, .discovery⟩ =
        .ok (legacyRoot.metadata ⟨2, 4⟩ ++ "\n" ++
          ("\n" ++ legacyRoot.metadata ⟨2, 4⟩ ++ "\n" ++ "" ++ "\n")) ∧
      legacyRoot.name = "?" ∧ copies .discovery 0 legacyRoot = 2 := by
  have rendered := render_legacyModule ""
  obtain ⟨root, _, _, isUnit, _, _, _, _, front, _⟩ := metadata_copies rendered
  obtain rfl : legacyRoot = root := Option.some.inj isUnit
  obtain ⟨_, twice⟩ := front rfl (by decide)
  exact ⟨rendered, rfl, twice.trans (if_neg (by decide))⟩

end CompiledModule

end PycListing
