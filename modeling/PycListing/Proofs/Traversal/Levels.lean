import PycListing.Proofs.Traversal.Orders
import Mathlib.Data.List.Shortlex
import Mathlib.Logic.Function.Iterate

/-! # Discovery order is level order

The units of a tree are discovered level by level. While a level is being taken off the queue, the
queue is the rest of this level and then what stands directly in the part that was taken off
(`PycListing.Occurrence.discover_append`), so that one level is followed by the next one
(`PycListing.Occurrence.discover_eq_levels`). A level has the order of the one above it, and then
that of the constants, so that the paths of the tree are listed in shortlex order
(`PycListing.Occurrence.pairwise_levels`). Each turn of the loop lists one unit, so that the loop
comes to an end though a turn may let many units queue up (`PycListing.Discovery.iterate_step`).
-/

namespace PycListing

/-- The units at a depth of a tree: those directly in the units one level up, in the order of these,
and then in that of their constants. -/
def CodeUnit.level (root : CodeUnit) : Nat → List CodeUnit
  | 0 => [root]
  | depth + 1 => (root.level depth).flatMap nested

namespace Occurrence

variable {outer inner : Occurrence} {depth height : Nat}

/-- The occurrences at a depth below one of them. -/
def level (outer : Occurrence) : Nat → List Occurrence
  | 0 => [outer]
  | depth + 1 => (outer.level depth).flatMap nested

theorem map_unit_level (outer : Occurrence) (depth : Nat) :
    (outer.level depth).map unit = outer.unit.level depth := by
  induction depth with
  | zero => rfl
  | succ depth ih =>
      rw [level, CodeUnit.level, ← ih, List.map_flatMap, List.flatMap_map]
      exact List.flatMap_congr fun inner _ => map_unit_nested inner

theorem length_path_of_mem_level (member : inner ∈ outer.level depth) :
    inner.path.length = outer.path.length + depth := by
  induction depth generalizing inner with
  | zero => rw [List.mem_singleton.mp member, Nat.add_zero]
  | succ depth ih =>
      obtain ⟨parent, above, nested⟩ := List.mem_flatMap.mp member
      obtain ⟨place, path, -⟩ := mem_nested.mp nested
      rw [path, List.length_append, ih above, List.length_singleton, Nat.add_assoc]

/-! ## One level after the other -/

/-- The queue holds the rest of one level and the start of the next one. -/
theorem discover_append (front back : List Occurrence) :
    discover (front ++ back) = front ++ discover (back ++ front.flatMap nested) := by
  induction front generalizing back with
  | nil => rw [List.flatMap_nil, List.append_nil, List.nil_append, List.nil_append]
  | cons outer front ih =>
      rw [List.cons_append, discover, List.append_assoc, ih, List.flatMap_cons, List.append_assoc,
        List.cons_append]

/-- All levels up to a depth are discovered before what stands below them. -/
theorem discover_eq_levels (outer : Occurrence) (depth : Nat) :
    discover [outer] = (List.range depth).flatMap outer.level ++ discover (outer.level depth) := by
  induction depth with
  | zero => rfl
  | succ depth ih =>
      have next : discover (outer.level depth) =
          outer.level depth ++ discover (outer.level (depth + 1)) := by
        have whole := discover_append (outer.level depth) []
        rwa [List.append_nil, List.nil_append] at whole
      rw [ih, next, List.range_succ, List.flatMap_append, List.flatMap_singleton,
        List.append_assoc]

theorem mem_discover_of_mem_level (member : inner ∈ outer.level depth) :
    inner ∈ discover [outer] := by
  rw [discover_eq_levels outer (depth + 1)]
  exact List.mem_append_left _
    (List.mem_flatMap.mpr ⟨depth, List.mem_range.mpr (Nat.lt_succ_self depth), member⟩)

theorem level_eq_nil_of_le (empty : outer.level height = []) (deeper : height ≤ depth) :
    outer.level depth = [] := by
  induction deeper with
  | refl => exact empty
  | step _ ih => rw [level, ih, List.flatMap_nil]

theorem le_length_levels (height : Nat) (some : ∀ depth < height, outer.level depth ≠ []) :
    height ≤ ((List.range height).flatMap outer.level).length := by
  induction height with
  | zero => exact Nat.zero_le _
  | succ height ih =>
      have above := ih fun depth shallow => some depth (Nat.lt_succ_of_lt shallow)
      have last := List.length_pos_iff.mpr (some height (Nat.lt_succ_self height))
      rw [List.range_succ, List.flatMap_append, List.length_append, List.flatMap_singleton]
      omega

/-- Some level is empty: no more levels hold a unit than units are discovered. -/
theorem exists_level_eq_nil (outer : Occurrence) : ∃ depth, outer.level depth = [] := by
  by_contra never
  have each := le_length_levels ((discover [outer]).length + 1)
    fun depth _ empty => never ⟨depth, empty⟩
  have whole := congrArg List.length
    (discover_eq_levels outer ((discover [outer]).length + 1))
  rw [List.length_append] at whole
  omega

/-- The levels of a tree up to the first one that is empty. -/
theorem exists_height (outer : Occurrence) :
    ∃ height, (∀ depth, outer.level depth = [] ↔ height ≤ depth) ∧
      discover [outer] = (List.range height).flatMap outer.level := by
  classical
  have exists_empty := exists_level_eq_nil outer
  have empty := Nat.find_spec exists_empty
  refine ⟨Nat.find exists_empty, fun depth => ?_, ?_⟩
  · exact ⟨Nat.find_min' exists_empty, level_eq_nil_of_le empty⟩
  · have levels := discover_eq_levels outer (Nat.find exists_empty)
    rwa [empty, discover, List.append_nil] at levels

/-! ## The order of the paths -/

theorem lex_append_of_length_eq {first second : Path} (before : List.Lex (· < ·) first second)
    (same : first.length = second.length) (more others : Path) :
    List.Lex (· < ·) (first ++ more) (second ++ others) := by
  induction before with
  | nil => cases same
  | cons _ ih => exact .cons (ih (Nat.succ.inj same))
  | rel less => exact .rel less

/-- A level keeps the order of the one above it, and then that of the constants. -/
theorem pairwise_lex_level (outer : Occurrence) (depth : Nat) :
    (outer.level depth).Pairwise fun first second =>
      List.Lex (· < ·) first.path second.path := by
  induction depth with
  | zero => exact List.pairwise_singleton _ _
  | succ depth ih =>
      rw [level, List.pairwise_flatMap]
      constructor
      · intro parent _
        refine (pairwise_nested parent).imp ?_
        rintro child other ⟨place, later, before, childPath, otherPath⟩
        rw [childPath, otherPath]
        exact List.Lex.append_left _ (.rel before) parent.path
      · refine ih.imp_of_mem ?_
        intro first second inFirst inSecond before child isChild other isOther
        obtain ⟨place, childPath, -⟩ := mem_nested.mp isChild
        obtain ⟨otherPlace, otherPath, -⟩ := mem_nested.mp isOther
        rw [childPath, otherPath]
        refine lex_append_of_length_eq before ?_ _ _
        rw [length_path_of_mem_level inFirst, length_path_of_mem_level inSecond]

/-- **Paths are discovered in shortlex order:** a shorter one before a longer one, and those of one
length in the order of the first constant in which they differ. -/
theorem pairwise_levels (outer : Occurrence) (height : Nat) :
    ((List.range height).flatMap outer.level).Pairwise fun first second =>
      List.Shortlex (· < ·) first.path second.path := by
  rw [List.pairwise_flatMap]
  constructor
  · intro depth _
    refine (pairwise_lex_level outer depth).imp_of_mem fun inFirst inSecond before => ?_
    refine .of_lex ?_ before
    rw [length_path_of_mem_level inFirst, length_path_of_mem_level inSecond]
  · refine List.pairwise_lt_range.imp fun shallower first inFirst second inSecond => ?_
    refine .of_length_lt ?_
    rw [length_path_of_mem_level inFirst, length_path_of_mem_level inSecond]
    omega

end Occurrence

/-! ## Turns of the loop -/

/-- The state of the loop: the units that were listed, in order, and the queue. -/
structure Discovery where
  done : List CodeUnit
  waiting : List CodeUnit

namespace Discovery

variable {done waiting : List CodeUnit}

def start (root : CodeUnit) : Discovery :=
  ⟨[], [root]⟩

/-- One turn of the loop. The first unit of the queue is listed, and those directly in it queue
up. -/
def step (state : Discovery) : Discovery :=
  match state.waiting with
  | [] => state
  | unit :: queue => ⟨state.done ++ [unit], queue ++ unit.nested⟩

/-- The queue is empty after as many turns as there are units to discover from it. -/
theorem iterate_step (done waiting : List CodeUnit) :
    step^[(Traversal.discover waiting).length] ⟨done, waiting⟩ =
      ⟨done ++ Traversal.discover waiting, []⟩ := by
  fun_induction Traversal.discover waiting generalizing done with
  | case1 => rw [List.append_nil, List.length_nil, Function.iterate_zero, id_eq]
  | case2 unit queue ih =>
      rw [List.length_cons, Function.iterate_succ_apply, step, ih, List.append_assoc,
        List.singleton_append]

/-- The queue is not empty before that. -/
theorem waiting_ne_nil {turns : Nat} (early : turns < (Traversal.discover waiting).length) :
    (step^[turns] ⟨done, waiting⟩).waiting ≠ [] := by
  fun_induction Traversal.discover waiting generalizing done turns with
  | case1 => cases early
  | case2 unit queue ih =>
      cases turns with
      | zero => exact List.cons_ne_nil _ _
      | succ turns =>
          rw [Function.iterate_succ_apply]
          exact ih (Nat.lt_of_succ_lt_succ early)

end Discovery

/-- **Discovery order is level order.** The levels of a tree follow one another from the root on,
each of them made of the units directly in those of the level above, until one is empty. The units
of a level are those whose paths have its depth as their length, and the paths are listed in
shortlex order: a unit stands behind those of lesser depth, and in its level behind those whose
parents come first, or that are earlier constants of its own parent. The loop lists one unit each
turn, and its queue is empty as soon as all of them are listed. -/
theorem CodeUnit.discoveryOrder_levelOrder (root : CodeUnit) :
    (∃ (height : Nat) (pathsAt : Nat → List Path),
      (∀ depth, root.level depth = [] ↔ height ≤ depth) ∧
      root.discoveryOrder = (List.range height).flatMap root.level ∧
      (∀ depth, (pathsAt depth).map root.unitAt? = (root.level depth).map some ∧
        ∀ path ∈ pathsAt depth, path.length = depth) ∧
      Enumerates root .discovery ((List.range height).flatMap pathsAt) ∧
      ((List.range height).flatMap pathsAt).Pairwise (List.Shortlex (· < ·))) ∧
    Discovery.step^[root.discoveryOrder.length] (.start root) = ⟨root.discoveryOrder, []⟩ ∧
    ∀ turns < root.discoveryOrder.length,
      (Discovery.step^[turns] (.start root)).waiting ≠ [] := by
  refine ⟨?_, Discovery.iterate_step [] [root], fun turns => Discovery.waiting_ne_nil⟩
  obtain ⟨height, empty, levels⟩ := Occurrence.exists_height (.root root)
  have units (depth : Nat) : ((Occurrence.root root).level depth).map Occurrence.unit =
      root.level depth := Occurrence.map_unit_level _ _
  have paths : (root.occurrences .discovery).map Occurrence.path = (List.range height).flatMap
      fun depth => ((Occurrence.root root).level depth).map Occurrence.path := by
    rw [occurrences, levels, List.map_flatMap]
  refine ⟨height, fun depth => ((Occurrence.root root).level depth).map Occurrence.path, ?_, ?_,
    fun depth => ⟨?_, ?_⟩, ?_, ?_⟩
  · intro depth
    rw [← empty, ← units, List.map_eq_nil_iff]
  · have listed := root.map_unit_occurrences .discovery
    rw [occurrences, levels, List.map_flatMap] at listed
    rw [← funext units]
    exact listed.symm
  · rw [← units, List.map_map, List.map_map]
    refine List.map_congr_left fun inner member => ?_
    have listed : inner ∈ root.occurrences .discovery :=
      Occurrence.mem_discover_of_mem_level member
    exact mem_occurrences.mp listed
  · intro path member
    obtain ⟨inner, inLevel, rfl⟩ := List.mem_map.mp member
    rw [Occurrence.length_path_of_mem_level inLevel]
    exact Nat.zero_add depth
  · rw [← paths]
    exact enumerates_of_once ((pairwise_discovered root).imp fun never => by
      rintro rfl
      exact never List.prefix_rfl)
  · have ordered := Occurrence.pairwise_levels (.root root) height
    rw [← List.map_flatMap, List.pairwise_map]
    exact ordered

end PycListing
