import PycListing.Proofs.Checked.Order
import Mathlib.Logic.Function.Iterate

/-! # Dependency order is post-order

A unit comes behind the dependency orders of the units among its constants. The loop that lists a
tree keeps for each open unit a cursor into its constants, and goes on where the cursor stands. One
turn of the loop leaves every cursor within its constants (`PycListing.Scan.Inside.step`), and the
turns that an open unit takes are two for each unit of its tree, but for the one that opens it
(`PycListing.Scan.iterate_step_open`). So the loop comes to an end for every tree, and to the
post-order of it (`PycListing.CodeUnit.dependencyOrder_postOrder`).
-/

namespace PycListing

/-- The state of the loop: the units that were left, in order, and those that are open, the
innermost first. -/
structure Scan where
  done : List CodeUnit
  frames : List Checked.Frame

namespace Scan

open Checked (firstUnit?)

variable {done : List CodeUnit} {frame : Checked.Frame} {outer : List Checked.Frame}

def start (root : CodeUnit) : Scan :=
  ⟨[], [⟨root, 0⟩]⟩

/-- An open unit whose cursor has moved behind the constant after some others. -/
def behind (frame : Checked.Frame) (skipped : Nat) : Checked.Frame :=
  { frame with next := frame.next + (skipped + 1) }

/-- One turn of the loop. The constants of the innermost open unit are searched from its cursor on.
The unit that is found there is opened, and the cursor moves behind it; if there is none, the open
unit is left. -/
def step (scan : Scan) : Scan :=
  match scan.frames with
  | [] => scan
  | frame :: outer =>
    match firstUnit? frame.rest with
    | some (skipped, child) => ⟨scan.done, ⟨child, 0⟩ :: behind frame skipped :: outer⟩
    | none => ⟨scan.done ++ [frame.unit], outer⟩

theorem step_of_some {skipped : Nat} {child : CodeUnit}
    (found : firstUnit? frame.rest = some (skipped, child)) :
    step ⟨done, frame :: outer⟩ = ⟨done, ⟨child, 0⟩ :: behind frame skipped :: outer⟩ := by
  simp only [step, found]

theorem step_of_none (found : firstUnit? frame.rest = none) :
    step ⟨done, frame :: outer⟩ = ⟨done ++ [frame.unit], outer⟩ := by
  simp only [step, found]

/-! ## Cursors -/

/-- No cursor has passed the end of the constants of its unit. -/
def Inside (scan : Scan) : Prop :=
  ∀ frame ∈ scan.frames, frame.next ≤ frame.unit.consts.length

theorem inside_start (root : CodeUnit) : (start root).Inside :=
  List.forall_mem_singleton.mpr (Nat.zero_le _)

/-- A unit that was found stands behind the cursor and before the end of the constants. -/
theorem lt_length_of_firstUnit? {skipped : Nat} {child : CodeUnit}
    (found : firstUnit? frame.rest = some (skipped, child)) :
    frame.next + skipped < frame.unit.consts.length := by
  have stored := Checked.getElem?_of_firstUnit? found
  rw [Checked.Frame.rest, List.getElem?_drop] at stored
  exact (List.getElem?_eq_some_iff.mp stored).choose

theorem Inside.step {scan : Scan} (inside : scan.Inside) : scan.step.Inside := by
  obtain ⟨done, frames⟩ := scan
  cases frames with
  | nil => exact inside
  | cons frame outer =>
      obtain ⟨_, inOuter⟩ := List.forall_mem_cons.mp inside
      cases found : firstUnit? frame.rest with
      | none =>
          rw [step_of_none found]
          exact inOuter
      | some place =>
          rw [step_of_some found]
          exact List.forall_mem_cons.mpr ⟨Nat.zero_le _,
            List.forall_mem_cons.mpr ⟨lt_length_of_firstUnit? found, inOuter⟩⟩

theorem Inside.iterate_step {scan : Scan} (inside : scan.Inside) (turns : Nat) :
    (Scan.step^[turns] scan).Inside := by
  induction turns with
  | zero => exact inside
  | succ turns ih =>
      rw [Function.iterate_succ_apply']
      exact ih.step

/-! ## Turns -/

theorem nextUnit?_of_some {skipped : Nat} {child : CodeUnit}
    (found : firstUnit? frame.rest = some (skipped, child)) :
    Traversal.nextUnit? frame.rest = some (child, (behind frame skipped).rest) := by
  have onward : frame.rest.drop (skipped + 1) = (behind frame skipped).rest := List.drop_drop
  rw [Checked.nextUnit?_eq, found, ← onward]
  rfl

/-- The units of the trees that an open unit has yet to list before it is left. -/
def within (frame : Checked.Frame) : List CodeUnit :=
  (frame.rest.filterMap Value.unit?).flatMap CodeUnit.dependencyOrder

theorem within_of_none (found : firstUnit? frame.rest = none) : within frame = [] := by
  have units := Traversal.filterMap_unit?_of_nextUnit? frame.rest
  rw [Checked.nextUnit?_eq, found] at units
  rw [within, units]
  rfl

theorem within_of_some {skipped : Nat} {child : CodeUnit}
    (found : firstUnit? frame.rest = some (skipped, child)) :
    within frame = child.dependencyOrder ++ within (behind frame skipped) := by
  have units := Traversal.filterMap_unit?_of_nextUnit? frame.rest
  rw [nextUnit?_of_some found] at units
  rw [within, units]
  rfl

theorem within_enter (unit : CodeUnit) :
    within ⟨unit, 0⟩ ++ [unit] = unit.dependencyOrder :=
  unit.dependencyOrder_eq.symm

/-- An open unit is listed behind the trees in it, and closed by the turn that lists it. Each unit
of these trees takes one turn to be opened and one to be left. The induction is on the constants
that no cursor has passed. -/
theorem iterate_step_open (done : List CodeUnit) (frame : Checked.Frame)
    (outer : List Checked.Frame) :
    Scan.step^[2 * (within frame).length + 1] ⟨done, frame :: outer⟩ =
      ⟨done ++ (within frame ++ [frame.unit]), outer⟩ := by
  induction size : sizeOf frame.rest using Nat.strong_induction_on
    generalizing done frame outer with
  | _ count ih =>
      cases found : firstUnit? frame.rest with
      | none =>
          rw [within_of_none found]
          exact step_of_none found
      | some place =>
          obtain ⟨skipped, child⟩ := place
          have smaller := Traversal.sizeOf_of_nextUnit?_eq_some (nextUnit?_of_some found)
          have inChild := child.sizeOf_consts_lt
          have entered : Checked.Frame.rest ⟨child, 0⟩ = child.consts := List.drop_zero
          have nested := ih (sizeOf (Checked.Frame.rest ⟨child, 0⟩)) (by rw [entered]; omega)
            done ⟨child, 0⟩ (behind frame skipped :: outer) rfl
          have others := ih (sizeOf (behind frame skipped).rest) (by omega)
            (done ++ child.dependencyOrder) (behind frame skipped) outer rfl
          have turns : 2 * (within frame).length + 1 =
              (2 * (within (behind frame skipped)).length + 1) +
                (2 * (within ⟨child, 0⟩).length + 1) + 1 := by
            rw [within_of_some found, List.length_append, ← within_enter child,
              List.length_append, List.length_singleton]
            omega
          rw [turns, Function.iterate_succ_apply, step_of_some found, Function.iterate_add_apply,
            nested, within_enter, others, within_of_some found, List.append_assoc,
            List.append_assoc]
          rfl

end Scan

/-- **Dependency order is post-order.** A unit comes behind the dependency orders of the units
directly among its constants, which come in the order of the constants. The loop with its cursors
comes to this order in two turns for each unit of the tree, less the one that opens the root, and
has no open unit left then. No cursor ever passes the end of its constants. -/
theorem CodeUnit.dependencyOrder_postOrder (root : CodeUnit) :
    root.dependencyOrder =
        (root.consts.filterMap Value.unit?).flatMap CodeUnit.dependencyOrder ++ [root] ∧
      Scan.step^[2 * root.dependencyOrder.length - 1] (Scan.start root) =
        ⟨root.dependencyOrder, []⟩ ∧
      ∀ turns, ∀ frame ∈ (Scan.step^[turns] (Scan.start root)).frames,
        frame.next ≤ frame.unit.consts.length := by
  refine ⟨root.dependencyOrder_eq, ?_, fun turns => (Scan.inside_start root).iterate_step turns⟩
  have closed := Scan.iterate_step_open [] ⟨root, 0⟩ []
  have turns : 2 * root.dependencyOrder.length - 1 = 2 * (Scan.within ⟨root, 0⟩).length + 1 := by
    rw [← Scan.within_enter root, List.length_append, List.length_singleton]
    omega
  rw [turns]
  exact closed.trans (by rw [Scan.within_enter, List.nil_append])

end PycListing
