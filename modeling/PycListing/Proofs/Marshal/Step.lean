import PycListing.Marshal.Reader

/-! # From one tag to the next

Reading on an explicit stack repeats one step: it takes a first byte, and either opens a container
or completes an object, which the open containers await
(`PycListing.Marshal.Read.run_eq_step`). What a step or a whole reading does is said in terms of
the states that each of its parts leaves.
-/

namespace PycListing.Marshal

namespace Read

variable {α β : Type}

theorem bind_of_ok {reader : Read α} {state after : State} {value : α}
    (result : reader state = .ok value after) (next : α → Read β) :
    (reader >>= next) state = next value after := by
  simp only [Bind.bind, EStateM.bind, result]

theorem bind_of_error {reader : Read α} {state after : State} {error : Error}
    (result : reader state = .error error after) (next : α → Read β) :
    (reader >>= next) state = .error error after := by
  simp only [Bind.bind, EStateM.bind, result]

/-- What a sequence of two readers comes back with was read by the second one. -/
theorem bind_eq_ok {reader : Read α} {next : α → Read β} {state final : State} {value : β}
    (result : (reader >>= next) state = .ok value final) :
    ∃ found after, reader state = .ok found after ∧ next found after = .ok value final := by
  cases first : reader state with
  | error error after =>
      rw [bind_of_error first] at result
      cases result
  | ok found after =>
      rw [bind_of_ok first] at result
      exact ⟨found, after, rfl, result⟩

/-- A sequence of two readers fails where the first one does, or where the second one does. -/
theorem bind_eq_error {reader : Read α} {next : α → Read β} {state final : State} {error : Error}
    (result : (reader >>= next) state = .error error final) :
    reader state = .error error final ∨
      ∃ found after, reader state = .ok found after ∧ next found after = .error error final := by
  cases first : reader state with
  | error other after =>
      rw [bind_of_error first] at result
      cases result
      exact .inl rfl
  | ok found after =>
      rw [bind_of_ok first] at result
      exact .inr ⟨found, after, rfl, result⟩

theorem map_of_ok {reader : Read α} {state after : State} {value : α}
    (result : reader state = .ok value after) (f : α → β) :
    (f <$> reader) state = .ok (f value) after := by
  simp only [Functor.map, EStateM.map, result]

theorem map_of_error {reader : Read α} {state after : State} {error : Error}
    (result : reader state = .error error after) (f : α → β) :
    (f <$> reader) state = .error error after := by
  simp only [Functor.map, EStateM.map, result]

theorem offset_bind (next : Nat → Read α) (state : State) :
    (offset >>= next) state = next state.input.offset state :=
  rfl

/-- A number that the stream is too short for takes all of it. -/
theorem number_of_short {state : State} {width : Nat} (short : state.input.remaining < width) :
    number width state =
      .error ⟨state.input.offset + state.input.remaining, .truncated⟩
        { state with input := state.input.advance state.input.remaining } := by
  simp only [number, Cursor.takeNumber, Cursor.take_eq, Nat.not_le.mpr short, if_false, Except.map]
  rfl

theorem number_of_enough {state : State} {width : Nat} (enough : width ≤ state.input.remaining) :
    number width state =
      .ok (littleEndian (state.input.rest.take width))
        { state with input := state.input.advance width } := by
  simp only [number, Cursor.takeNumber, Cursor.take_eq, enough, if_true, Except.map]

theorem byte_of_nil {state : State} (bytes : state.input.rest = []) :
    byte state = .error ⟨state.input.offset, .truncated⟩ state := by
  have empty : state.input.remaining = 0 := by rw [Cursor.remaining, bytes, List.length_nil]
  have short : state.input.remaining < 1 := by omega
  have failed := number_of_short short
  rw [empty, Nat.add_zero, Cursor.advance_zero] at failed
  exact map_of_error failed _

theorem byte_of_cons {state : State} {first : UInt8} {rest : List UInt8}
    (bytes : state.input.rest = first :: rest) :
    byte state = .ok first { state with input := state.input.advance 1 } := by
  have enough : 1 ≤ state.input.remaining := by
    rw [Cursor.remaining, bytes, List.length_cons]
    omega
  have same : (littleEndian (state.input.rest.take 1)).toUInt8 = first := by
    rw [bytes, List.take_succ_cons, List.take_zero, littleEndian, littleEndian, Nat.mul_zero,
      Nat.add_zero]
    exact UInt8.ofNat_toNat
  rw [byte, map_of_ok (number_of_enough enough), same]

/-- Reads from one tag to the next, given the frames that are open. -/
def step (layout : CodeLayout) (frames : List Frame) : Read (Value ⊕ List Frame) := do
  let start ← offset
  if depthLimit ≤ frames.length then fail start .tooDeep
  else do
    let first ← byte
    element layout start first frames

/-- Reads on with the frames that are open, unless the object that no frame awaits is complete. -/
def goOn (layout : CodeLayout) : Value ⊕ List Frame → Read Value
  | .inl value => pure value
  | .inr frames => run layout frames

theorem step_of_full {layout : CodeLayout} {frames : List Frame}
    (full : depthLimit ≤ frames.length) (state : State) :
    step layout frames state = .error ⟨state.input.offset, .tooDeep⟩ state := by
  simp only [step, full, if_true]
  rfl

theorem step_of_nil {layout : CodeLayout} {frames : List Frame}
    (room : ¬depthLimit ≤ frames.length) {state : State} (bytes : state.input.rest = []) :
    step layout frames state = .error ⟨state.input.offset, .truncated⟩ state := by
  simp only [step, room, if_false]
  exact bind_of_error (byte_of_nil bytes) _

theorem step_of_cons {layout : CodeLayout} {frames : List Frame}
    (room : ¬depthLimit ≤ frames.length) {state : State} {first : UInt8} {rest : List UInt8}
    (bytes : state.input.rest = first :: rest) :
    step layout frames state = element layout state.input.offset first frames
      { state with input := state.input.advance 1 } := by
  simp only [step, room, if_false]
  exact bind_of_ok (byte_of_cons bytes) _

/-- Reading on is a step, and reading on from there. -/
theorem run_eq_step (layout : CodeLayout) (frames : List Frame) :
    run layout frames = step layout frames >>= goOn layout := by
  funext state
  rw [run]
  by_cases full : depthLimit ≤ frames.length
  · rw [if_pos full, bind_of_error (step_of_full full state)]
  · rw [if_neg full]
    split
    · rename_i bytes
      rw [bind_of_error (step_of_nil full bytes)]
    · rename_i first rest bytes
      have stepped : step layout frames state = _ := step_of_cons full bytes
      split
      · rename_i error after result
        rw [bind_of_error (stepped.trans result)]
      · rename_i value after result
        rw [bind_of_ok (stepped.trans result)]
        rfl
      · rename_i opened after result
        rw [bind_of_ok (stepped.trans result)]
        rfl

/-! ## What a tag announces -/

/-- Reads what follows a first byte, which stands at `start`: an object that holds no others, or
the front of a container. -/
def opening (layout : CodeLayout) (start : Nat) (first : UInt8) : Read (Value ⊕ Frame) := do
  let slot ← reserveFor first
  match Tag.ofByte? (withoutFlag first) with
  | none => fail start (.unknownTag (withoutFlag first))
  | some (.scalar tag) => do
    let value ← settledScalar layout start slot tag
    pure (.inl value)
  | some (.sequence kind form) => do
    let declared ← lengthOf form
    let frame : Frame := ⟨slot, .sequence kind declared #[]⟩
    if declared = 0 then do
      let value ← finish layout frame
      pure (.inl value)
    else pure (.inr frame)
  | some .dict => pure (.inr ⟨slot, .dict none #[]⟩)
  | some .unit => do
    let counters ← counters layout
    pure (.inr ⟨slot, .unit start counters #[] none⟩)

/-- Hands a complete object to the open frames, or opens one more. -/
def handOn (layout : CodeLayout) (frames : List Frame) :
    Value ⊕ Frame → Read (Value ⊕ List Frame)
  | .inl value => deliver layout value frames
  | .inr frame => pure (.inr (frame :: frames))

theorem Advances.opening (layout : CodeLayout) (start : Nat) (first : UInt8) :
    Advances (Read.opening layout start first) := by
  apply Advances.bind (.reserveFor first)
  intro slot
  split
  · exact .fail _ _
  · exact .bind (.settledScalar _ _ _ _) fun _ => .pure _
  · apply Advances.bind (.lengthOf _)
    intro declared
    dsimp only
    split
    · exact .bind (.finish _ _) fun _ => .pure _
    · exact .pure _
  · exact .pure _
  · exact .bind (.counters _) fun _ => .pure _

theorem element_eq_opening (layout : CodeLayout) (start : Nat) (first : UInt8)
    (frames : List Frame) :
    element layout start first frames = opening layout start first >>= handOn layout frames := by
  simp only [element, opening, bind_assoc]
  congr 1
  funext slot
  cases Tag.ofByte? (withoutFlag first) with
  | none => rfl
  | some tag =>
      cases tag with
      | scalar tag =>
          simp only [bind_assoc, pure_bind]
          rfl
      | sequence kind form =>
          simp only [bind_assoc]
          congr 1
          funext declared
          by_cases empty : declared = 0
          · simp only [empty, if_true, bind_assoc, pure_bind]
            rfl
          · simp only [empty, if_false, pure_bind]
            rfl
      | dict => rfl
      | unit =>
          simp only [bind_assoc, pure_bind]
          rfl

end Read

end PycListing.Marshal
