import PycListing.Proofs.Checked.Decode
import PycListing.Proofs.Traversal.Orders

/-! # Dependency order within limits

The loop that lists the units of a tree in dependency order keeps for each open unit the index of
the next constant to look at. The index never passes the end of the pool, and the loop comes to the
order (`PycListing.Checked.dependencyOrder_eq`).
-/

namespace PycListing

theorem Value.eq_code_of_unit? {value : Value} {unit : CodeUnit}
    (isUnit : value.unit? = some unit) : value = .code unit := by
  cases value with
  | code found => exact congrArg Value.code (Option.some.inj isUnit)
  | _ => cases isUnit

/-- A tree all of whose units are short. -/
def CodeUnit.AllShort (root : CodeUnit) : Prop :=
  ∀ path unit, root.unitAt? path = some unit → unit.Short

theorem CodeUnit.AllShort.short {root : CodeUnit} (allShort : root.AllShort) : root.Short :=
  allShort [] root rfl

theorem CodeUnit.AllShort.nested {root child : CodeUnit} (allShort : root.AllShort)
    (member : .code child ∈ root.consts) : child.AllShort := by
  obtain ⟨place, stored⟩ := List.mem_iff_getElem?.mp member
  intro path unit found
  refine allShort (place :: path) unit ?_
  rw [CodeUnit.unitAt?, stored]
  exact found

/-- A tree has short units if its root is short and the trees in it have. -/
theorem CodeUnit.AllShort.of_nested {root : CodeUnit} (short : root.Short)
    (inner : ∀ child, .code child ∈ root.consts → child.AllShort) : root.AllShort := by
  intro path unit found
  cases path with
  | nil => exact Option.some.inj found ▸ short
  | cons place path =>
      obtain ⟨child, stored, found⟩ := Option.bind_eq_some_iff.mp found
      obtain ⟨value, held, isUnit⟩ := Option.bind_eq_some_iff.mp stored
      rw [Value.eq_code_of_unit? isUnit] at held
      exact inner child (List.mem_of_getElem? held) path unit found

namespace Traversal

variable {done : List CodeUnit} {outer : List Frame} {unit : CodeUnit} {consts : List Value}

theorem resolve_of_some {child : CodeUnit} {rest : List Value}
    (found : nextUnit? consts = some (child, rest)) :
    resolve done (⟨unit, consts⟩ :: outer) =
      resolve done (Frame.enter child :: ⟨unit, rest⟩ :: outer) := by
  rw [resolve]
  split
  · rename_i other
    cases found.symm.trans other
    rfl
  · rename_i other
    cases found.symm.trans other

theorem resolve_of_none (found : nextUnit? consts = none) :
    resolve done (⟨unit, consts⟩ :: outer) = resolve (unit :: done) outer := by
  rw [resolve]
  split
  · rename_i other
    cases found.symm.trans other
  · rfl

end Traversal

namespace Checked

/-- A unit whose nested units are being listed, and the index of the next constant to look at. -/
structure Frame where
  unit : CodeUnit
  next : Nat

/-- The constants not looked at yet. -/
def Frame.rest (frame : Frame) : List Value :=
  frame.unit.consts.drop frame.next

/-- The first unit among some constants, behind the number of constants before it. -/
def firstUnit? : List Value → Option (Nat × CodeUnit)
  | [] => none
  | value :: rest =>
    match value.unit? with
    | some unit => some (0, unit)
    | none => (firstUnit? rest).map fun (skipped, unit) => (skipped + 1, unit)

/-- Looks for the next unit among the constants of a frame, and moves the frame behind it. -/
def Frame.advance (frame : Frame) : Except Fault (Option (CodeUnit × Frame)) := do
  let left ← slice frame.unit.consts frame.next frame.unit.consts.length
  match firstUnit? left with
  | none => pure none
  | some (skipped, child) =>
    let taken ← add skipped 1
    let next ← add frame.next taken
    pure (some (child, { frame with next }))

theorem nextUnit?_eq (consts : List Value) :
    Traversal.nextUnit? consts =
      (firstUnit? consts).map fun (skipped, unit) => (unit, consts.drop (skipped + 1)) := by
  induction consts with
  | nil => rfl
  | cons value rest ih =>
      rw [Traversal.nextUnit?, firstUnit?]
      cases value.unit? with
      | some unit => rfl
      | none =>
          dsimp only
          rw [ih, Option.map_map]
          rfl

theorem getElem?_of_firstUnit? {consts : List Value} {skipped : Nat} {unit : CodeUnit}
    (found : firstUnit? consts = some (skipped, unit)) : consts[skipped]? = some (.code unit) := by
  induction consts generalizing skipped with
  | nil => cases found
  | cons value rest ih =>
      rw [firstUnit?] at found
      split at found
      · rename_i isUnit
        cases found
        exact congrArg some (Value.eq_code_of_unit? isUnit)
      · obtain ⟨⟨earlier, inner⟩, inRest, same⟩ := Option.map_eq_some_iff.mp found
        cases same
        exact ih inRest

/-- What is found is smaller than what is left to look at, with what is left behind it. -/
theorem Frame.sizeOf_of_advance {frame onward : Frame} {child : CodeUnit}
    (found : frame.advance = .ok (some (child, onward))) :
    sizeOf child + sizeOf onward.rest < sizeOf frame.rest := by
  obtain ⟨left, cut, found⟩ := except_bind_eq_ok found
  obtain rfl : left = frame.rest := by
    rw [eq_slice cut, List.take_length]
    rfl
  rcases first : firstUnit? frame.rest with _ | ⟨skipped, inner⟩
  · rw [first] at found
    cases found
  · rw [first] at found
    obtain ⟨taken, counted, found⟩ := except_bind_eq_ok found
    obtain ⟨next, moved, found⟩ := except_bind_eq_ok found
    cases found
    obtain rfl := eq_add counted
    obtain rfl := eq_add moved
    refine Traversal.sizeOf_of_nextUnit?_eq_some ?_
    rw [nextUnit?_eq, first, Frame.rest, Frame.rest, ← List.drop_drop]
    rfl

/-- Enters the next unit among the constants of the innermost frame, or leaves that frame if there
is none. Units are collected as they are left, the latest first. -/
def resolve (done : List CodeUnit) : List Frame → Except Fault (List CodeUnit)
  | [] => pure done.reverse
  | frame :: outer =>
    match _found : frame.advance with
    | .error fault => .error fault
    | .ok none => resolve (frame.unit :: done) outer
    | .ok (some (child, onward)) => resolve done (⟨child, 0⟩ :: onward :: outer)
termination_by frames => sizeOf (frames.map Frame.rest)
decreasing_by
  · simp only [List.map_cons, List.cons.sizeOf_spec]
    omega
  · have smaller := Frame.sizeOf_of_advance _found
    have inside := child.sizeOf_consts_lt
    have entered : Frame.rest ⟨child, 0⟩ = child.consts := List.drop_zero
    simp only [List.map_cons, List.cons.sizeOf_spec, entered]
    omega

def dependencyOrder (root : CodeUnit) : Except Fault (List CodeUnit) :=
  resolve [] [⟨root, 0⟩]

/-- An index within its pool, in a tree of short units. -/
structure Frame.Within (frame : Frame) : Prop where
  allShort : frame.unit.AllShort
  next : frame.next ≤ frame.unit.consts.length

theorem Frame.within_enter {unit : CodeUnit} (allShort : unit.AllShort) :
    Frame.Within ⟨unit, 0⟩ :=
  ⟨allShort, Nat.zero_le _⟩

/-- A frame finds the unit that the order finds, and stays within its pool. -/
theorem Frame.Within.exists_advance {frame : Frame} (within : frame.Within) :
    ∃ found : Option (CodeUnit × Frame), frame.advance = .ok found ∧
      Traversal.nextUnit? frame.rest = found.map (fun (child, onward) => (child, onward.rest)) ∧
      ∀ child onward, found = some (child, onward) →
        onward.unit = frame.unit ∧ onward.Within ∧ child.AllShort := by
  have few := within.allShort.short.consts
  have left : slice frame.unit.consts frame.next frame.unit.consts.length = .ok frame.rest :=
    slice_from within.next
  rw [nextUnit?_eq, Frame.advance, left, bind_ok]
  rcases found : firstUnit? frame.rest with _ | ⟨skipped, child⟩
  · exact ⟨none, rfl, rfl, nofun⟩
  · have stored := getElem?_of_firstUnit? found
    rw [Frame.rest, List.getElem?_drop] at stored
    obtain ⟨inPool, _⟩ := List.getElem?_eq_some_iff.mp stored
    have inside : (⟨frame.unit, frame.next + (skipped + 1)⟩ : Frame).Within :=
      ⟨within.allShort, inPool⟩
    refine ⟨some (child, ⟨frame.unit, frame.next + (skipped + 1)⟩), ?_, ?_, ?_⟩
    · dsimp only
      rw [add_eq (by omega), bind_ok, add_eq (by omega)]
      rfl
    · have behind : Frame.rest ⟨frame.unit, frame.next + (skipped + 1)⟩ =
          frame.rest.drop (skipped + 1) := List.drop_drop.symm
      exact congrArg (fun rest => some (child, rest)) behind.symm
    · rintro _ _ ⟨⟩
      exact ⟨rfl, inside, within.allShort.nested (List.mem_of_getElem? stored)⟩

/-- A frame with the constants that it has not looked at, as the order has it. -/
def Frame.plain (frame : Frame) : Traversal.Frame :=
  ⟨frame.unit, frame.rest⟩

theorem resolve_eq (done : List CodeUnit) {frames : List Frame}
    (within : ∀ frame ∈ frames, frame.Within) :
    resolve done frames = .ok (Traversal.resolve done (frames.map Frame.plain)) := by
  fun_induction resolve done frames with
  | case1 done =>
      rw [List.map_nil, Traversal.resolve]
      rfl
  | case2 done frame outer fault failed =>
      obtain ⟨found, advanced, _⟩ := (within frame List.mem_cons_self).exists_advance
      cases failed.symm.trans advanced
  | case3 done frame outer advanced ih =>
      obtain ⟨inFrame, inOuter⟩ := List.forall_mem_cons.mp within
      obtain ⟨found, same, next, _⟩ := inFrame.exists_advance
      cases advanced.symm.trans same
      rw [ih inOuter, List.map_cons, Frame.plain, Traversal.resolve_of_none next]
  | case4 done frame outer child onward advanced ih =>
      obtain ⟨inFrame, inOuter⟩ := List.forall_mem_cons.mp within
      obtain ⟨found, same, next, stays⟩ := inFrame.exists_advance
      cases advanced.symm.trans same
      obtain ⟨own, inOnward, allShort⟩ := stays child onward rfl
      have inside := List.forall_mem_cons.mpr ⟨Frame.within_enter allShort,
        List.forall_mem_cons.mpr ⟨inOnward, inOuter⟩⟩
      have onwardPlain : onward.plain = ⟨frame.unit, onward.rest⟩ := by rw [Frame.plain, own]
      have entered : Frame.plain ⟨child, 0⟩ = .enter child := rfl
      rw [ih inside, List.map_cons, List.map_cons, List.map_cons, entered, onwardPlain,
        Frame.plain, Traversal.resolve_of_some next]

/-- **A tree of short units is listed within limits.** -/
theorem dependencyOrder_eq {root : CodeUnit} (allShort : root.AllShort) :
    dependencyOrder root = .ok root.dependencyOrder := by
  have within : ∀ frame ∈ [(⟨root, 0⟩ : Frame)], frame.Within :=
    List.forall_mem_singleton.mpr (Frame.within_enter allShort)
  rw [dependencyOrder, resolve_eq [] within]
  rfl

end Checked

end PycListing
