import PycListing.Code.Unit

/-! # Orders of the units

The units of a tree in discovery order, level by level from the root, and in dependency order,
each after every unit nested in it. A unit that is reached along several paths is listed once for
each. Both orders are computed by a loop over an explicit work list.
-/

namespace PycListing

/-- In which order the units of a tree are listed. -/
inductive TraversalOrder where
  /-- Level by level, a unit before those nested in it. -/
  | discovery
  /-- A unit after all those nested in it. -/
  | dependency
  deriving DecidableEq, Repr

namespace Traversal

theorem sizeOf_append_le (queue more : List CodeUnit) :
    sizeOf (queue ++ more) ≤ sizeOf queue + sizeOf more := by
  induction queue with
  | nil => exact Nat.le_add_left _ _
  | cons unit rest ih =>
    rw [List.cons_append, List.cons.sizeOf_spec, List.cons.sizeOf_spec]
    omega

/-- Takes the first unit of a queue and lets the units nested in it queue up behind the rest. -/
def discover : List CodeUnit → List CodeUnit
  | [] => []
  | unit :: queue => unit :: discover (queue ++ unit.nested)
termination_by queue => sizeOf queue
decreasing_by
  have smaller := unit.sizeOf_nested_lt
  have together := sizeOf_append_le queue unit.nested
  rw [List.cons.sizeOf_spec]
  omega

/-- A unit whose nested units are being listed, with the constants not looked at yet. -/
structure Frame where
  unit : CodeUnit
  rest : List Value

/-- A unit none of whose constants has been looked at. -/
def Frame.enter (unit : CodeUnit) : Frame :=
  ⟨unit, unit.consts⟩

/-- The first unit among some constants, and the constants after it. -/
def nextUnit? : List Value → Option (CodeUnit × List Value)
  | [] => none
  | value :: rest =>
    match value.unit? with
    | some unit => some (unit, rest)
    | none => nextUnit? rest

theorem sizeOf_of_nextUnit?_eq_some {consts rest : List Value} {unit : CodeUnit}
    (found : nextUnit? consts = some (unit, rest)) : sizeOf unit + sizeOf rest < sizeOf consts := by
  induction consts with
  | nil => simp [nextUnit?] at found
  | cons value more ih =>
    simp only [nextUnit?] at found
    split at found
    · rename_i isUnit
      have smaller := CodeUnit.sizeOf_lt_of_unit?_eq_some isUnit
      simp only [Option.some.injEq, Prod.mk.injEq] at found
      obtain ⟨rfl, rfl⟩ := found
      simp only [List.cons.sizeOf_spec]
      omega
    · have smaller := ih found
      simp only [List.cons.sizeOf_spec]
      omega

/-- Enters the next unit among the constants of the innermost frame, or leaves that frame if there
is none. Units are collected as they are left, the latest first. -/
def resolve (done : List CodeUnit) : List Frame → List CodeUnit
  | [] => done.reverse
  | ⟨unit, consts⟩ :: outer =>
    match _found : nextUnit? consts with
    | some (child, rest) => resolve done (Frame.enter child :: ⟨unit, rest⟩ :: outer)
    | none => resolve (unit :: done) outer
termination_by frames => sizeOf (frames.map Frame.rest)
decreasing_by
  · have smaller := sizeOf_of_nextUnit?_eq_some _found
    have inside := child.sizeOf_consts_lt
    simp only [Frame.enter, List.map_cons, List.cons.sizeOf_spec]
    omega
  · simp only [List.map_cons, List.cons.sizeOf_spec]
    omega

end Traversal

namespace CodeUnit

def discoveryOrder (root : CodeUnit) : List CodeUnit :=
  Traversal.discover [root]

/-- The units of a tree, each after every unit nested in it. -/
def dependencyOrder (root : CodeUnit) : List CodeUnit :=
  Traversal.resolve [] [Traversal.Frame.enter root]

def inOrder (root : CodeUnit) : TraversalOrder → List CodeUnit
  | .discovery => root.discoveryOrder
  | .dependency => root.dependencyOrder

end CodeUnit

end PycListing
