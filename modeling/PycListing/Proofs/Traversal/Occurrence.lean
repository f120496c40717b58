import PycListing.Traversal
import Mathlib.Data.List.Basic
import Mathlib.Data.List.Infix

/-! # Units at their paths

The same unit may stand at many places of a tree. A place is a path, the constants that lead down
to it, and a unit at a path is an occurrence. Occurrences that are no part of one another have
nothing in common below them (`PycListing.Occurrence.Apart.below`).
-/

namespace PycListing

/-- A way down from a unit, by the positions in the constant pools. -/
abbrev Path := List Nat

/-- The unit that stands at a path, if there is one. -/
def CodeUnit.unitAt? (unit : CodeUnit) : Path → Option CodeUnit
  | [] => some unit
  | place :: path => (unit.consts[place]?.bind Value.unit?).bind fun inner => inner.unitAt? path

theorem CodeUnit.unitAt?_append (unit : CodeUnit) (path way : Path) :
    unit.unitAt? (path ++ way) = (unit.unitAt? path).bind fun inner => inner.unitAt? way := by
  induction path generalizing unit with
  | nil => rfl
  | cons place path ih =>
      simp only [List.cons_append, unitAt?, ih, Option.bind_assoc]

/-- Where a unit stands, so do those around it. -/
theorem CodeUnit.isSome_unitAt?_of_prefix {unit : CodeUnit} {outer inner : Path}
    (within : outer <+: inner) (stands : (unit.unitAt? inner).isSome) :
    (unit.unitAt? outer).isSome := by
  obtain ⟨way, rfl⟩ := within
  rw [unitAt?_append] at stands
  exact Option.isSome_of_isSome_bind stands

/-- A unit at a path from some root. -/
@[ext] structure Occurrence where
  path : Path
  unit : CodeUnit

namespace Occurrence

/-- The occurrence of a root, at the empty path. -/
def root (unit : CodeUnit) : Occurrence :=
  ⟨[], unit⟩

/-- The units that stand directly among a unit's constants, in the order of the pool. -/
def nested (outer : Occurrence) : List Occurrence :=
  outer.unit.consts.zipIdx.filterMap fun (value, place) =>
    value.unit?.map fun unit => ⟨outer.path ++ [place], unit⟩

theorem map_unit_nested (outer : Occurrence) : outer.nested.map unit = outer.unit.nested := by
  have forget : (outer.unit.consts.zipIdx.map Prod.fst).filterMap Value.unit? =
      outer.unit.nested := by
    rw [List.zipIdx_map_fst, CodeUnit.nested]
  rw [← forget, List.filterMap_map, nested, List.map_filterMap]
  congr 1
  funext (value, place)
  simp only [Option.map_map, Function.comp_def, Option.map_id']

theorem mem_nested {outer inner : Occurrence} :
    inner ∈ outer.nested ↔ ∃ place, inner.path = outer.path ++ [place] ∧
      outer.unit.consts[place]?.bind Value.unit? = some inner.unit := by
  simp only [nested, List.mem_filterMap, Prod.exists, List.mem_zipIdx_iff_getElem?,
    Option.map_eq_some_iff]
  constructor
  · rintro ⟨value, place, stored, unit, isUnit, rfl⟩
    exact ⟨place, rfl, by rw [stored]; exact isUnit⟩
  · rintro ⟨place, path, found⟩
    obtain ⟨value, stored, isUnit⟩ := Option.bind_eq_some_iff.mp found
    exact ⟨value, place, stored, inner.unit, isUnit, by rw [← path]⟩

theorem sizeOf_map_unit_nested_lt (outer : Occurrence) :
    sizeOf (outer.nested.map unit) < sizeOf outer.unit := by
  rw [map_unit_nested]
  exact outer.unit.sizeOf_nested_lt

theorem sizeOf_unit_lt {outer inner : Occurrence} (member : inner ∈ outer.nested) :
    sizeOf inner.unit < sizeOf outer.unit :=
  Nat.lt_trans (List.sizeOf_lt_of_mem (List.mem_map_of_mem member))
    outer.sizeOf_map_unit_nested_lt

/-! ## What stands below an occurrence -/

/-- An occurrence that stands below another one, or is the same. -/
def Below (inner outer : Occurrence) : Prop :=
  ∃ way, inner.path = outer.path ++ way ∧ outer.unit.unitAt? way = some inner.unit

theorem Below.refl (occurrence : Occurrence) : occurrence.Below occurrence :=
  ⟨[], (List.append_nil _).symm, rfl⟩

theorem below_root {root : CodeUnit} {inner : Occurrence} :
    inner.Below (.root root) ↔ root.unitAt? inner.path = some inner.unit := by
  constructor
  · rintro ⟨way, path, found⟩
    rw [path]
    exact found
  · intro found
    exact ⟨inner.path, rfl, found⟩

/-- What stands below a unit is the unit itself, or stands below one that is directly in it. -/
theorem below_iff {inner outer : Occurrence} :
    inner.Below outer ↔ inner = outer ∨ ∃ child ∈ outer.nested, inner.Below child := by
  constructor
  · rintro ⟨way, path, found⟩
    cases way with
    | nil =>
        rw [List.append_nil] at path
        exact .inl (Occurrence.ext path (Option.some.inj found).symm)
    | cons place way =>
        obtain ⟨child, stored, found⟩ := Option.bind_eq_some_iff.mp found
        refine .inr ⟨⟨outer.path ++ [place], child⟩, mem_nested.mpr ⟨place, rfl, stored⟩, way, ?_,
          found⟩
        rw [path, List.append_assoc, List.singleton_append]
  · rintro (rfl | ⟨child, member, way, path, found⟩)
    · exact .refl _
    · obtain ⟨place, childPath, stored⟩ := mem_nested.mp member
      refine ⟨place :: way, ?_, ?_⟩
      · rw [path, childPath, List.append_assoc, List.singleton_append]
      · rw [CodeUnit.unitAt?, stored]
        exact found

theorem Below.path_prefix {inner outer : Occurrence} (below : inner.Below outer) :
    outer.path <+: inner.path := by
  obtain ⟨way, path, _⟩ := below
  exact ⟨way, path.symm⟩

theorem length_lt_of_below_nested {inner child outer : Occurrence} (member : child ∈ outer.nested)
    (below : inner.Below child) : outer.path.length < inner.path.length := by
  obtain ⟨place, path, _⟩ := mem_nested.mp member
  have longer := below.path_prefix.length_le
  rw [path, List.length_append, List.length_singleton] at longer
  exact longer

/-! ## Occurrences apart -/

/-- Neither of two occurrences stands below the other one. -/
def Apart (first second : Occurrence) : Prop :=
  ¬first.path <+: second.path ∧ ¬second.path <+: first.path

theorem Apart.symm {first second : Occurrence} (apart : first.Apart second) :
    second.Apart first :=
  ⟨apart.2, apart.1⟩

/-- What stands below two occurrences that are apart is apart. -/
theorem Apart.below {first second inFirst inSecond : Occurrence} (apart : first.Apart second)
    (belowFirst : inFirst.Below first) (belowSecond : inSecond.Below second) :
    inFirst.Apart inSecond := by
  constructor
  · intro within
    exact (List.prefix_or_prefix_of_prefix (belowFirst.path_prefix.trans within)
      belowSecond.path_prefix).elim apart.1 apart.2
  · intro within
    exact (List.prefix_or_prefix_of_prefix belowFirst.path_prefix
      (belowSecond.path_prefix.trans within)).elim apart.1 apart.2

theorem not_prefix_sibling (path : Path) {first second : Nat} (differ : first ≠ second) :
    ¬path ++ [first] <+: path ++ [second] := by
  intro within
  have same := within.eq_of_length (by rw [List.length_append, List.length_append]; rfl)
  exact differ (List.singleton_inj.mp (List.append_cancel_left same))

/-- The units directly in another one stand at constants that come one after the other. -/
theorem pairwise_nested (outer : Occurrence) :
    outer.nested.Pairwise fun first second => ∃ place later, place < later ∧
      first.path = outer.path ++ [place] ∧ second.path = outer.path ++ [later] := by
  have places : outer.unit.consts.zipIdx.Pairwise fun first second => first.2 < second.2 := by
    rw [← List.pairwise_map, List.zipIdx_map_snd]
    exact List.pairwise_lt_range'
  rw [nested, List.pairwise_filterMap]
  refine places.imp ?_
  rintro ⟨_, place⟩ ⟨_, later⟩ before _ isFirst _ isSecond
  obtain ⟨_, _, rfl⟩ := Option.map_eq_some_iff.mp isFirst
  obtain ⟨_, _, rfl⟩ := Option.map_eq_some_iff.mp isSecond
  exact ⟨place, later, before, rfl, rfl⟩

/-- The units directly in another one are apart, since they stand at different constants. -/
theorem pairwise_apart_nested (outer : Occurrence) : outer.nested.Pairwise Apart := by
  refine (pairwise_nested outer).imp ?_
  rintro first second ⟨place, later, before, firstPath, secondPath⟩
  have differ : place ≠ later := Nat.ne_of_lt before
  rw [Apart, firstPath, secondPath]
  exact ⟨not_prefix_sibling outer.path differ, not_prefix_sibling outer.path differ.symm⟩

end Occurrence

end PycListing
