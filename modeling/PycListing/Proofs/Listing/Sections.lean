import PycListing.Disassembler
import PycListing.Proofs.Fallible
import PycListing.Proofs.Traversal.Orders

/-! # Listings are complete

A tree has a listing if each unit in it can be decoded, in either order. The listing is then made
of one section for each unit, which opens with the unit's metadata where the order asks for it
(`PycListing.Disassembler.Headed`), and the instructions in it do not depend on the order; otherwise
the error is that of the first unit of the order that cannot be decoded
(`PycListing.Disassembler.render_complete`).
-/

namespace PycListing

namespace Disassembler

variable {ε : Type} (disassembler : Disassembler ε)

/-- The instructions of a unit are written as a text. -/
def Writes (unit : CodeUnit) (text : String) : Prop :=
  disassembler.decoder unit disassembler.table = .ok text

/-- The unit cannot be decoded. -/
def Fails (unit : CodeUnit) (error : ε) : Prop :=
  disassembler.decoder unit disassembler.table = .error error

/-- Each unit of a tree can be decoded, wherever it stands. -/
def DecodesAll (root : CodeUnit) : Prop :=
  ∀ path unit, root.unitAt? path = some unit → ∃ text, disassembler.Writes unit text

/-- A unit's metadata stands ahead of its instructions: in discovery order if the unit is not named
as the module of a file, in dependency order also if it is named so and has a filename. -/
def Headed (unit : CodeUnit) : TraversalOrder → Prop
  | .discovery => unit.name ≠ "<module>"
  | .dependency => unit.name = "<module>" → unit.filename ≠ ""

instance (unit : CodeUnit) : (order : TraversalOrder) → Decidable (Headed unit order)
  | .discovery => inferInstanceAs (Decidable (unit.name ≠ "<module>"))
  | .dependency => inferInstanceAs (Decidable (unit.name = "<module>" → unit.filename ≠ ""))

/-- The section of a unit whose instructions are written as a text. -/
def sectionText (order : TraversalOrder) (unit : CodeUnit) (text : String) : String :=
  (if Headed unit order then
    "\n" ++ disassembler.formatter unit disassembler.table.version ++ "\n"
  else "") ++ text ++ "\n"

theorem hasHeader_iff (unit : CodeUnit) (order : TraversalOrder) :
    hasHeader unit order = true ↔ Headed unit order := by
  cases order with
  | discovery => simp [hasHeader, Headed, CodeUnit.isModule, CodeUnit.moduleName]
  | dependency =>
      simp [hasHeader, Headed, CodeUnit.isModule, CodeUnit.moduleName, imp_iff_not_or]

theorem heading_eq (order : TraversalOrder) (unit : CodeUnit) :
    disassembler.heading order unit =
      if Headed unit order then
        "\n" ++ disassembler.formatter unit disassembler.table.version ++ "\n"
      else "" :=
  if_congr (hasHeader_iff unit order) rfl rfl

variable {disassembler} {root : CodeUnit} {order : TraversalOrder}

theorem unitSection_of_writes {unit : CodeUnit} {text : String}
    (writes : disassembler.Writes unit text) :
    disassembler.unitSection order unit = .ok (disassembler.sectionText order unit text) := by
  rw [unitSection, writes, heading_eq]
  rfl

theorem unitSection_eq_error_iff {unit : CodeUnit} {error : ε} :
    disassembler.unitSection order unit = .error error ↔ disassembler.Fails unit error :=
  map_eq_error_iff

theorem exists_unitSection_iff {unit : CodeUnit} :
    (∃ text, disassembler.unitSection order unit = .ok text) ↔
      ∃ text, disassembler.Writes unit text :=
  exists_map_eq_ok_iff

theorem exists_render_iff :
    (∃ text, disassembler.render order root = .ok text) ↔ disassembler.DecodesAll root := by
  rw [render, exists_map_eq_ok_iff, exists_mapM_eq_ok_iff, DecodesAll]
  simp only [exists_unitSection_iff, CodeUnit.mem_inOrder]
  constructor
  · intro decodes path unit stands
    exact decodes unit ⟨path, stands⟩
  · rintro decodes unit ⟨path, stands⟩
    exact decodes path unit stands

theorem render_eq_join {listing : CodeUnit → String}
    (writes : ∀ unit ∈ root.inOrder order, disassembler.Writes unit (listing unit)) :
    disassembler.render order root = .ok (String.join
      ((root.inOrder order).map fun unit => disassembler.sectionText order unit (listing unit))) := by
  have sections := mapM_eq_ok (f := disassembler.unitSection order)
    (fun unit => disassembler.sectionText order unit (listing unit))
    fun unit member => unitSection_of_writes (writes unit member)
  rw [render, sections]
  rfl

theorem render_eq_error_iff {error : ε} :
    disassembler.render order root = .error error ↔ ∃ before unit after,
      root.inOrder order = before ++ unit :: after ∧
      (∀ earlier ∈ before, ∃ text, disassembler.Writes earlier text) ∧
      disassembler.Fails unit error := by
  rw [render, map_eq_error_iff, mapM_eq_error_iff]
  simp only [exists_unitSection_iff, unitSection_eq_error_iff]

/-- The instructions of each unit, if all of them can be decoded. -/
theorem DecodesAll.exists_listing (decodes : disassembler.DecodesAll root) :
    ∃ listing : CodeUnit → String, ∀ path unit, root.unitAt? path = some unit →
      disassembler.Writes unit (listing unit) := by
  have each : ∀ unit, ∃ text, ∀ path, root.unitAt? path = some unit →
      disassembler.Writes unit text := by
    intro unit
    by_cases stands : ∃ path, root.unitAt? path = some unit
    · obtain ⟨path, stands⟩ := stands
      obtain ⟨text, writes⟩ := decodes path unit stands
      exact ⟨text, fun _ _ => writes⟩
    · exact ⟨"", fun path found => absurd ⟨path, found⟩ stands⟩
  choose listing writes using each
  exact ⟨listing, fun path unit => writes unit path⟩

theorem writes_of_mem_inOrder {listing : CodeUnit → String}
    (writes : ∀ path unit, root.unitAt? path = some unit →
      disassembler.Writes unit (listing unit))
    (unit : CodeUnit) (member : unit ∈ root.inOrder order) :
    disassembler.Writes unit (listing unit) := by
  obtain ⟨path, stands⟩ := CodeUnit.mem_inOrder.mp member
  exact writes path unit stands

/-- **A listing is complete or there is none.** -/
theorem render_complete (disassembler : Disassembler ε) (root : CodeUnit) :
    (∀ order, (∃ text, disassembler.render order root = .ok text) ↔
      disassembler.DecodesAll root) ∧
    ((∃ text, disassembler.render .discovery root = .ok text) ↔
      ∃ text, disassembler.render .dependency root = .ok text) ∧
    (disassembler.DecodesAll root → ∃ listing : CodeUnit → String,
      (∀ path unit, root.unitAt? path = some unit → disassembler.Writes unit (listing unit)) ∧
      (∀ order, disassembler.render order root = .ok (String.join
        ((root.inOrder order).map fun unit =>
          disassembler.sectionText order unit (listing unit)))) ∧
      ((root.inOrder .dependency).map listing).Perm ((root.inOrder .discovery).map listing)) ∧
    ∀ order error, disassembler.render order root = .error error ↔ ∃ before unit after,
      root.inOrder order = before ++ unit :: after ∧
      (∀ earlier ∈ before, ∃ text, disassembler.Writes earlier text) ∧
      disassembler.Fails unit error := by
  refine ⟨fun order => exists_render_iff, ?_, ?_, fun order error => render_eq_error_iff⟩
  · rw [exists_render_iff, exists_render_iff]
  · intro decodes
    obtain ⟨listing, writes⟩ := decodes.exists_listing
    refine ⟨listing, writes, fun order => render_eq_join (writes_of_mem_inOrder writes), ?_⟩
    exact root.inOrder_perm.map listing

end Disassembler

end PycListing
