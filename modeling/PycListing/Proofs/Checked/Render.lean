import PycListing.Listing
import PycListing.Proofs.Checked.Loaded

/-! # Listings within limits

The listing of a compiled file, made of the steps of a machine that stops where an index or a slice
leaves its list or a number leaves its word. If no part of a unit has `2 ^ 31` entries, as none of a
loaded one has, the machine does not stop, and it comes to the listing, or to the error of a file
that has none (`PycListing.CompiledModule.render_within`).
-/

namespace PycListing

namespace Checked

/-! ## Metadata -/

/-- Entries numbered from `first` on, one to a line, of which some are written already. -/
def numberedLines (first written : Nat) : List String → Except Fault (List String)
  | [] => pure []
  | entry :: rest => do
    let number ← add first written
    let next ← add written 1
    let others ← numberedLines first next rest
    pure (("# " ++ Text.padLeft 4 (toString number) ++ ": " ++ entry) :: others)

def numberedSection (title : String) (first : Nat) (entries : List String) :
    Except Fault (List String) :=
  if entries.isEmpty then pure []
  else (("# " ++ title ++ ":") :: ·) <$> numberedLines first 0 entries

def metadataLines (unit : CodeUnit) (version : Version) : Except Fault (List String) := do
  let constants ← numberedSection "Constants" 0 (unit.consts.map (Value.literal unit.era))
  let names ← numberedSection "Names" 0 unit.names
  let positional ← slice unit.varnames 0 unit.positionalCount
  let others ← slice unit.varnames unit.positionalCount unit.varnames.length
  let locals ← numberedSection "Local variables" unit.positionalCount others
  let free ← numberedSection "Free variables" 0 unit.freevars
  let cells ← numberedSection "Cell variables" 0 unit.cellvars
  pure (unit.counterLines version ++ constants ++ names ++
    CodeUnit.nameSection "Varnames" unit.varnames ++
    CodeUnit.nameSection "Positional arguments" positional ++ locals ++ free ++ cells)

def metadata (unit : CodeUnit) (version : Version) : Except Fault String :=
  "\n".intercalate <$> metadataLines unit version

theorem numberedLines_eq {first written : Nat} {entries : List String}
    (fits : first + written + entries.length < 2 ^ 64) :
    numberedLines first written entries =
      .ok (CodeUnit.numberedLines (first + written) entries) := by
  induction entries generalizing written with
  | nil => rfl
  | cons entry rest ih =>
      rw [List.length_cons] at fits
      rw [numberedLines, add_eq (by omega), bind_ok, add_eq (by omega), bind_ok, ih (by omega)]
      rfl

theorem numberedSection_eq (title : String) {first : Nat} {entries : List String}
    (fits : first + entries.length < 2 ^ 64) :
    numberedSection title first entries =
      .ok (CodeUnit.numberedSection title first entries) := by
  rw [numberedSection, CodeUnit.numberedSection, numberedLines_eq fits]
  split <;> rfl

theorem metadata_eq {unit : CodeUnit} (short : unit.Short) (version : Version) :
    metadata unit version = .ok (unit.metadata version) := by
  obtain ⟨_, _, consts, names, varnames, freevars, cellvars⟩ := short
  have within : unit.positionalCount ≤ unit.varnames.length := Nat.min_le_right _ _
  rw [metadata, metadataLines, numberedSection_eq _ (by rw [List.length_map]; omega), bind_ok,
    numberedSection_eq _ (by omega), bind_ok, slice_to within, bind_ok, slice_from within, bind_ok,
    numberedSection_eq _ (by rw [List.length_drop]; omega), bind_ok,
    numberedSection_eq _ (by omega), bind_ok, numberedSection_eq _ (by omega), bind_ok]
  rfl

/-! ## Units -/

def instructionListing (unit : CodeUnit) (table : Opcode.Table) :
    Except Fault (Except DecodeError String) :=
  Except.map Instruction.listing <$> decode unit table

/-- What stands ahead of a unit's instructions. -/
def heading (table : Opcode.Table) (order : TraversalOrder) (unit : CodeUnit) :
    Except Fault String :=
  if Disassembler.hasHeader unit order then do
    let metadata ← metadata unit table.version
    pure ("\n" ++ metadata ++ "\n")
  else pure ""

def unitSection (table : Opcode.Table) (order : TraversalOrder) (unit : CodeUnit) :
    Except Fault (Except DecodeError String) := do
  let heading ← heading table order unit
  let instructions ← instructionListing unit table
  pure (instructions.map fun text => heading ++ text ++ "\n")

/-- The units of a tree in an order. Discovery takes no index and no sum. -/
def inOrder (root : CodeUnit) : TraversalOrder → Except Fault (List CodeUnit)
  | .discovery => pure root.discoveryOrder
  | .dependency => dependencyOrder root

/-- The listing of every unit of a tree, up to the first one that cannot be decoded. -/
def sections (table : Opcode.Table) (order : TraversalOrder) (root : CodeUnit) :
    Except Fault (Except DecodeError String) := do
  let units ← inOrder root order
  Except.map String.join <$> each (unitSection table order) units

theorem unitSection_eq (table : Opcode.Table) (order : TraversalOrder) {unit : CodeUnit}
    (short : unit.Short) :
    unitSection table order unit =
      .ok ((Disassembler.standard table).unitSection order unit) := by
  have ahead : heading table order unit =
      .ok ((Disassembler.standard table).heading order unit) := by
    rw [heading, Disassembler.heading, metadata_eq short]
    split <;> rfl
  rw [unitSection, ahead, bind_ok, instructionListing, decode_eq short]
  rfl

theorem inOrder_eq {root : CodeUnit} (allShort : root.AllShort) (order : TraversalOrder) :
    inOrder root order = .ok (root.inOrder order) := by
  cases order with
  | discovery => rfl
  | dependency => exact dependencyOrder_eq allShort

theorem sections_eq (table : Opcode.Table) (order : TraversalOrder) {root : CodeUnit}
    (allShort : root.AllShort) :
    sections table order root = .ok ((Disassembler.standard table).render order root) := by
  have short : ∀ unit ∈ root.inOrder order, unit.Short := by
    intro unit member
    obtain ⟨path, found⟩ := CodeUnit.mem_inOrder.mp member
    exact allShort path unit found
  rw [sections, inOrder_eq allShort, bind_ok,
    each_eq fun unit member => unitSection_eq table order (short unit member)]
  rfl

/-! ## Files -/

/-- The root's metadata ahead of a listing in discovery order, for a root that has a filename. -/
def rootLines (table : Opcode.Table) (order : TraversalOrder) (root : CodeUnit) :
    Except Fault (List String) :=
  match order with
  | .discovery =>
    if root.filename.isEmpty then pure []
    else (fun block => [block]) <$> metadata root table.version
  | .dependency => pure []

def listing (compiled : CompiledModule) (host : String) (options : ListingOptions) :
    Except Fault (Except ListingError (CodeUnit × String)) :=
  match compiled.root.unit? with
  | none => pure (.error (.notCode compiled.root.typeName))
  | some root =>
    match Opcode.resolve compiled.version compiled.flavor with
    | .error error => pure (.error (.unsupported error))
    | .ok table => do
      let rootLines ← rootLines table options.order root
      match ← sections table options.order root with
      | .error error => pure (.error (.undecodable error))
      | .ok units => pure (.ok (root, CompiledModule.terminated
          ((if options.header then compiled.headerLines host else []) ++
            compiled.sourceLines ++ rootLines) ++ units))

/-- The listing of a compiled file, made on some host. -/
def render (compiled : CompiledModule) (host : String) (options : ListingOptions) :
    Except Fault (Except ListingError String) :=
  Except.map Prod.snd <$> listing compiled host options

theorem rootLines_eq (table : Opcode.Table) (order : TraversalOrder) {root : CodeUnit}
    (short : root.Short) :
    rootLines table order root =
      .ok (CompiledModule.rootLines (Disassembler.standard table) order root) := by
  cases order with
  | discovery =>
      rw [rootLines, CompiledModule.rootLines, metadata_eq short]
      split <;> rfl
  | dependency => rfl

theorem render_eq {compiled : CompiledModule} (host : String) (options : ListingOptions)
    (allShort : ∀ root, compiled.root.unit? = some root → root.AllShort) :
    render compiled host options = .ok (compiled.render host options) := by
  rw [render, listing, CompiledModule.render, CompiledModule.listing]
  cases isUnit : compiled.root.unit? with
  | none => rfl
  | some root =>
      have allShort := allShort root isUnit
      dsimp only
      cases Opcode.resolve compiled.version compiled.flavor with
      | error error => rfl
      | ok table =>
          dsimp only
          rw [rootLines_eq table _ allShort.short, bind_ok, sections_eq table _ allShort, bind_ok]
          cases (Disassembler.standard table).render options.order root <;> rfl

end Checked

/-- **Making a listing never faults.** Whatever the counters, the instructions and the pools of a
tree of short units hold, no index and no slice leaves its list and no number leaves its word, and
what comes out is the listing, or the error of a file that has none. The units of a file that was
loaded are short. -/
theorem CompiledModule.render_within (compiled : CompiledModule) (host : String)
    (options : ListingOptions) :
    ((∀ root, compiled.root.unit? = some root → root.AllShort) →
      Checked.render compiled host options = .ok (compiled.render host options)) ∧
    ∀ data, Container.load data = .ok compiled →
      (∀ root, compiled.root.unit? = some root → root.AllShort) ∧
      Checked.render compiled host options = .ok (compiled.render host options) := by
  refine ⟨Checked.render_eq host options, fun data loaded => ?_⟩
  have allShort : ∀ root, compiled.root.unit? = some root → root.AllShort :=
    fun _ isUnit => Container.allShort_of_load loaded isUnit
  exact ⟨allShort, Checked.render_eq host options allShort⟩

/-- A unit that counts more parameters than it has variables, jumps far behind its stream, and names
a variable that there is none of. -/
def CodeUnit.overreaching : CodeUnit :=
  { CodeUnit.blank .modern "<module>" with
    argCount := 0xffffffff
    firstLine := 0xffffffff
    lineTable := [2, 255, 255, 128]
    code := [144, 255, 144, 255, 144, 255, 110, 255, 144, 255, 144, 255, 144, 255, 135, 255]
    consts := [.none, .code (.blank .modern "f")]
    varnames := ["x"]
    cellvars := ["x"] }

def CompiledModule.overreaching : CompiledModule where
  version := ⟨3, 6⟩
  flavor := .cpython
  magic := 3379
  timestamp := 0
  sourceSize := none
  root := .code .overreaching

theorem CodeUnit.short_blank (era : Era) (name : String) : (blank era name).Short := by
  constructor <;> exact Nat.two_pow_pos 31

theorem CodeUnit.allShort_overreaching : overreaching.AllShort := by
  refine .of_nested ?_ fun child member => .of_nested ?_ ?_
  · constructor <;> decide
  · simp only [overreaching, List.mem_cons, Value.code.injEq, reduceCtorEq, List.not_mem_nil,
      or_false, false_or] at member
    exact member ▸ short_blank .modern "f"
  · simp only [overreaching, List.mem_cons, Value.code.injEq, reduceCtorEq, List.not_mem_nil,
      or_false, false_or] at member
    exact member ▸ nofun

theorem CompiledModule.render_within_overreaching :
    CodeUnit.overreaching.decode (.ofSteps ⟨3, 6⟩ .cpython Opcode.Modern.steps36) =
        .error ⟨"<module>", 14, .freeIndex 4294967294⟩ ∧
      Checked.render .overreaching "x" {} = .ok (CompiledModule.overreaching.render "x" {}) := by
  refine ⟨by decide +kernel, (render_within .overreaching "x" {}).1 fun root isUnit => ?_⟩
  exact Option.some.inj isUnit ▸ CodeUnit.allShort_overreaching

end PycListing
