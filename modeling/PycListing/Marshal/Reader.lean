import PycListing.Marshal.Frame

/-! # Reading objects

An object is read tag by tag. The containers that are open stand on an explicit stack, whose
height is limited; each tag either opens a container or completes an object, which is delivered to
the containers that await it. Every tag takes a byte of the stream, so reading comes to an end
however large the lengths and counts are that the stream declares.
-/

namespace PycListing.Marshal

/-- The number of containers that may be open at once. -/
def depthLimit : Nat :=
  500

namespace Read

/-- Reserves a slot for the object of a first byte that flags it. -/
def reserveFor (first : UInt8) : Read (Option Nat) :=
  if isFlagged first then some <$> reserve else pure none

/-- Completes a scalar, which fills the slot reserved for it. -/
def settledScalar (layout : CodeLayout) (start : Nat) (slot : Option Nat) (tag : ScalarTag) :
    Read Value := do
  let value ← scalar layout.era start tag
  settle slot value
  pure value

/-- Reads what follows the first byte, which stands at `start`, up to the next tag, given the
frames that are open. Comes back with the frames that are open then, or with the object that no
frame awaits. A sequence declared to be empty is complete at once. -/
def element (layout : CodeLayout) (start : Nat) (first : UInt8) (frames : List Frame) :
    Read (Value ⊕ List Frame) := do
  let slot ← reserveFor first
  match Tag.ofByte? (withoutFlag first) with
  | none => fail start (.unknownTag (withoutFlag first))
  | some (.scalar tag) => do
    let value ← settledScalar layout start slot tag
    deliver layout value frames
  | some (.sequence kind form) => do
    let declared ← lengthOf form
    let frame : Frame := ⟨slot, .sequence kind declared #[]⟩
    if declared = 0 then do
      let value ← finish layout frame
      deliver layout value frames
    else pure (.inr (frame :: frames))
  | some .dict => pure (.inr (⟨slot, .dict none #[]⟩ :: frames))
  | some .unit => do
    let counters ← counters layout
    pure (.inr (⟨slot, .unit start counters #[] none⟩ :: frames))

theorem Advances.reserveFor (first : UInt8) : Advances (Read.reserveFor first) := by
  unfold Read.reserveFor
  split
  · exact .map _ .reserve
  · exact .pure _

theorem Advances.settledScalar (layout : CodeLayout) (start : Nat) (slot : Option Nat)
    (tag : ScalarTag) : Advances (Read.settledScalar layout start slot tag) :=
  .bind (.scalar _ _ _) fun _ => .bind (.settle _ _) fun _ => .pure _

theorem Advances.element (layout : CodeLayout) (start : Nat) (first : UInt8)
    (frames : List Frame) : Advances (Read.element layout start first frames) := by
  refine .bind (.reserveFor first) fun slot => ?_
  split
  · exact .fail _ _
  · exact .bind (.settledScalar _ _ _ _) fun _ => .deliver _ _ _
  · refine .bind (.lengthOf _) fun declared => ?_
    dsimp only
    split
    · exact .bind (.finish _ _) fun _ => .deliver _ _ _
    · exact .pure _
  · exact .pure _
  · exact .bind (.counters _) fun _ => .pure _

/-- Reads on until the object that no frame awaits is complete. -/
def run (layout : CodeLayout) (frames : List Frame) (state : State) :
    EStateM.Result Error State Value :=
  if depthLimit ≤ frames.length then .error ⟨state.input.offset, .tooDeep⟩ state
  else
    match _bytes : state.input.rest with
    | [] => .error ⟨state.input.offset, .truncated⟩ state
    | first :: _ =>
      match _result : element layout state.input.offset first frames
          { state with input := state.input.advance 1 } with
      | .error error after => .error error after
      | .ok (.inl value) after => .ok value after
      | .ok (.inr opened) after => run layout opened after
termination_by state.input.remaining
decreasing_by
  obtain ⟨count, _, moved⟩ := Advances.element layout state.input.offset first frames
    { state with input := state.input.advance 1 }
  rw [_result] at moved
  have nonempty : 0 < state.input.remaining := by
    rw [Cursor.remaining, _bytes]
    exact Nat.succ_pos _
  simp only [finalState] at moved
  simp only [moved, Cursor.remaining_advance]
  omega

end Read

/-- Reads the next object of a stream that a version wrote. -/
def read (version : Version) : Read Value :=
  Read.run (CodeLayout.ofVersion version) []

/-- Reads the first object of a stream that a version wrote. -/
def readFirst (version : Version) (stream : List UInt8) : Except Error Value :=
  match read version (State.start stream) with
  | .ok value _ => .ok value
  | .error error _ => .error error

end PycListing.Marshal
