import PycListing.Proofs.Marshal.Step

/-! # What reading does to the tables

Most readers leave the slots and the interned strings as they are, also when they fail
(`PycListing.Marshal.Read.Keeps`). What follows a first byte reserves the slot of a flagged object
before anything else, and fills it if the object is complete at once; an interned string joins the
others once it is complete (`PycListing.Marshal.Read.opening_ok`,
`PycListing.Marshal.Read.opening_error`).
-/

namespace PycListing.Marshal

namespace Read

variable {α β : Type}

/-- A reader that leaves the slots and the interned strings as they are, also when it fails. -/
def Keeps (reader : Read α) : Prop :=
  ∀ state, (finalState (reader state)).slots = state.slots ∧
    (finalState (reader state)).interned = state.interned

theorem Keeps.of_ok {reader : Read α} (keeps : Keeps reader) {state after : State} {value : α}
    (result : reader state = .ok value after) :
    after.slots = state.slots ∧ after.interned = state.interned := by
  have kept := keeps state
  rw [result] at kept
  exact kept

theorem Keeps.of_error {reader : Read α} (keeps : Keeps reader) {state after : State}
    {error : Error} (result : reader state = .error error after) :
    after.slots = state.slots ∧ after.interned = state.interned := by
  have kept := keeps state
  rw [result] at kept
  exact kept

theorem Keeps.pure (value : α) : Keeps (Pure.pure value : Read α) :=
  fun _ => ⟨rfl, rfl⟩

theorem Keeps.fail (offset : Nat) (cause : Cause) : Keeps (Read.fail offset cause : Read α) :=
  fun _ => ⟨rfl, rfl⟩

theorem Keeps.offset : Keeps Read.offset :=
  fun _ => ⟨rfl, rfl⟩

theorem Keeps.bind {reader : Read α} {next : α → Read β} (first : Keeps reader)
    (second : ∀ value, Keeps (next value)) : Keeps (reader >>= next) := by
  intro state
  cases result : reader state with
  | error error after =>
      rw [bind_of_error result]
      exact first.of_error result
  | ok value after =>
      obtain ⟨slots, interned⟩ := first.of_ok result
      rw [bind_of_ok result, ← slots, ← interned]
      exact second value after

theorem Keeps.map {reader : Read α} (f : α → β) (keeps : Keeps reader) : Keeps (f <$> reader) := by
  rw [map_eq_pure_bind]
  exact keeps.bind fun _ => .pure _

theorem Keeps.number (width : Nat) : Keeps (Read.number width) := by
  intro state
  unfold Read.number
  split <;> exact ⟨rfl, rfl⟩

theorem Keeps.payload (length : Nat) : Keeps (Read.payload length) := by
  intro state
  unfold Read.payload
  split <;> exact ⟨rfl, rfl⟩

theorem Keeps.byte : Keeps Read.byte :=
  .map _ (.number 1)

theorem Keeps.signed (width : Nat) : Keeps (Read.signed width) :=
  .map _ (.number width)

theorem Keeps.floatBits : Keeps Read.floatBits :=
  .map _ (.number 8)

theorem Keeps.length : Keeps Read.length := by
  refine .bind .offset fun _ => .bind (.signed 4) fun value => ?_
  split
  · exact .fail _ _
  · exact .pure _

theorem Keeps.text (length : Nat) : Keeps (Read.text length) := by
  refine .bind .offset fun _ => .bind (.payload length) fun bytes => ?_
  split
  · exact .pure _
  · exact .fail _ _

theorem Keeps.floatText : Keeps Read.floatText := by
  refine .bind .offset fun _ => .bind .byte fun length => .bind (.text _) fun text => ?_
  split
  · exact .pure _
  · exact .fail _ _

theorem Keeps.longDigits (count : Nat) : Keeps (Read.longDigits count) := by
  induction count with
  | zero => exact .pure _
  | succ count ih =>
      refine .bind .offset fun _ => .bind (.signed 2) fun digit => ?_
      split
      · exact .fail _ _
      · exact .bind ih fun _ => .pure _

theorem Keeps.lengthOf (form : LengthForm) : Keeps (Read.lengthOf form) := by
  cases form with
  | short => exact .map _ .byte
  | wide => exact .length

theorem Keeps.reference (start : Nat) {look : Int → Read (Option Value)}
    (keeps : ∀ index, Keeps (look index)) : Keeps (Read.reference start look) := by
  refine .bind (.signed 4) fun index => .bind (keeps index) fun found => ?_
  split
  · exact .pure _
  · exact .fail _ _

/-- A reference comes back with what was looked up in tables that were as before. -/
theorem exists_of_reference {start : Nat} {look : Int → Read (Option Value)} {state after : State}
    {value : Value} (result : reference start look state = .ok value after) :
    ∃ index middle, middle.slots = state.slots ∧ middle.interned = state.interned ∧
      look index middle = .ok (some value) after := by
  obtain ⟨index, middle, read, looked⟩ := bind_eq_ok result
  obtain ⟨slots, interned⟩ := (Keeps.signed 4).of_ok read
  obtain ⟨found, final, looked, rest⟩ := bind_eq_ok looked
  cases found with
  | none => cases rest
  | some found =>
      cases rest
      exact ⟨index, middle, slots, interned, looked⟩

theorem mem_slots_of_reference {start : Nat} {state after : State} {value : Value}
    (result : reference start referred? state = .ok value after) : some value ∈ state.slots := by
  obtain ⟨index, middle, slots, _, looked⟩ := exists_of_reference result
  simp only [referred?, EStateM.Result.ok.injEq] at looked
  obtain ⟨present, _⟩ := looked
  split at present
  · cases present
  · rw [Option.join_eq_some_iff] at present
    exact slots ▸ Array.mem_of_getElem? present

theorem mem_interned_of_reference {start : Nat} {state after : State} {value : Value}
    (result : reference start internedAt? state = .ok value after) : value ∈ state.interned := by
  obtain ⟨index, middle, _, interned, looked⟩ := exists_of_reference result
  simp only [internedAt?, EStateM.Result.ok.injEq] at looked
  obtain ⟨present, _⟩ := looked
  split at present
  · cases present
  · exact interned ▸ Array.mem_of_getElem? present

/-- Every scalar but an interned string leaves the tables as they are. -/
theorem Keeps.scalar (era : Era) (start : Nat) {tag : ScalarTag} (other : tag ≠ .interned) :
    Keeps (Read.scalar era start tag) := by
  cases tag with
  | null => exact .pure _
  | none => exact .pure _
  | bool => exact .pure _
  | stopIteration => exact .pure _
  | ellipsis => exact .pure _
  | int32 => exact .map _ (.signed 4)
  | int64 => exact .map _ (.signed 8)
  | long => exact .bind (.signed 4) fun _ => .bind (.longDigits _) fun _ => .pure _
  | floatText => exact .map _ .floatText
  | floatBits => exact .map _ .floatBits
  | complexText => exact .bind .floatText fun _ => .bind .floatText fun _ => .pure _
  | complexBits => exact .bind .floatBits fun _ => .bind .floatBits fun _ => .pure _
  | bytes => exact .bind .length fun _ => .map _ (.payload _)
  | interned => exact absurd rfl other
  | internedReference => exact .reference start fun _ _ => ⟨rfl, rfl⟩
  | text form => exact .bind (.lengthOf form) fun _ => .map _ (.text _)
  | reference => exact .reference start fun _ _ => ⟨rfl, rfl⟩

theorem Keeps.counter (layout : CodeLayout) : Keeps (Read.counter layout) :=
  .map _ (.number _)

theorem Keeps.counters (layout : CodeLayout) : Keeps (Read.counters layout) := by
  apply Keeps.bind (.counter _)
  intro _
  cases layout with
  | modern =>
      exact .bind (.counter _) fun _ => .bind (.counter _) fun _ => .bind (.counter _) fun _ =>
        .bind (.counter _) fun _ => .pure _
  | long =>
      exact .bind (.pure _) fun _ => .bind (.counter _) fun _ => .bind (.counter _) fun _ =>
        .bind (.counter _) fun _ => .pure _
  | short =>
      exact .bind (.pure _) fun _ => .bind (.counter _) fun _ => .bind (.counter _) fun _ =>
        .bind (.counter _) fun _ => .pure _

theorem Keeps.accept (layout : CodeLayout) (value : Value) (pending : Pending) :
    Keeps (Read.accept layout value pending) := by
  unfold Read.accept
  split
  · exact .pure _
  · exact .pure _
  · split <;> exact .pure _
  · split
    · exact .bind (.counter _) fun _ => .pure _
    · exact .pure _

theorem Keeps.assemble (layout : CodeLayout) (pending : Pending) :
    Keeps (Read.assemble layout pending) := by
  unfold Read.assemble
  split
  · exact .pure _
  · exact .pure _
  · split
    · exact .fail _ _
    · split
      · exact .pure _
      · exact .fail _ _

/-! ## Interned strings -/

def internedContent (era : Era) : Read Value := do
  let count ← length
  match era with
  | .legacy => Value.bytes <$> payload count
  | .modern => Value.str <$> text count

theorem Keeps.internedContent (era : Era) : Keeps (Read.internedContent era) := by
  apply Keeps.bind .length
  intro count
  cases era with
  | legacy => exact .map _ (.payload count)
  | modern => exact .map _ (.text count)

theorem internedString_eq (era : Era) :
    internedString era = (do
      let value ← internedContent era
      intern value
      pure value) := by
  simp only [internedString, internedContent, bind_assoc]
  cases era <;> rfl

/-- An interned string joins the others once it is complete. -/
theorem internedString_ok {era : Era} {state after : State} {value : Value}
    (result : internedString era state = .ok value after) :
    after.slots = state.slots ∧ after.interned = state.interned.push value := by
  rw [internedString_eq] at result
  obtain ⟨found, taken, read, last⟩ := bind_eq_ok result
  obtain ⟨slots, interned⟩ := (Keeps.internedContent era).of_ok read
  cases last
  exact ⟨slots, by rw [interned]⟩

theorem internedString_error {era : Era} {state after : State} {error : Error}
    (result : internedString era state = .error error after) :
    after.slots = state.slots ∧ after.interned = state.interned := by
  rw [internedString_eq] at result
  rcases bind_eq_error result with content | ⟨value, taken, _, added⟩
  · exact (Keeps.internedContent era).of_error content
  · cases added

theorem scalar_ok {era : Era} {start : Nat} {tag : ScalarTag} {state after : State} {value : Value}
    (result : scalar era start tag state = .ok value after) :
    after.slots = state.slots ∧ after.interned =
      if tag = .interned then state.interned.push value else state.interned := by
  by_cases interned : tag = .interned
  · subst interned
    exact internedString_ok result
  · rw [if_neg interned]
    exact (Keeps.scalar era start interned).of_ok result

theorem scalar_error {era : Era} {start : Nat} {tag : ScalarTag} {state after : State}
    {error : Error} (result : scalar era start tag state = .error error after) :
    after.slots = state.slots ∧ after.interned = state.interned := by
  by_cases interned : tag = .interned
  · subst interned
    exact internedString_error result
  · exact (Keeps.scalar era start interned).of_error result

/-! ## What follows a first byte -/

/-- The slots with one more for an object that is flagged. -/
def slotted (first : UInt8) (content : Option Value) (slots : Array (Option Value)) :
    Array (Option Value) :=
  if isFlagged first then slots.push content else slots

/-- The slot that is reserved for an object that is flagged. -/
def slotOf (first : UInt8) (slots : Array (Option Value)) : Option Nat :=
  if isFlagged first then some slots.size else none

/-- Whether a first byte has a scalar's tag. -/
def announces (tag : ScalarTag) (first : UInt8) : Bool :=
  Tag.ofByte? (withoutFlag first) == some (.scalar tag)

theorem reserveFor_eq (first : UInt8) (state : State) :
    reserveFor first state = .ok (slotOf first state.slots)
      { state with slots := slotted first none state.slots } := by
  unfold reserveFor slotOf slotted
  by_cases flagged : isFlagged first
  · rw [if_pos flagged, if_pos flagged, if_pos flagged]
    rfl
  · rw [if_neg flagged, if_neg flagged, if_neg flagged]
    rfl

/-- The state with the slot of an object filled, if it has one. -/
def filled (slot : Option Nat) (value : Value) (state : State) : State :=
  match slot with
  | some index => { state with slots := state.slots.setIfInBounds index (some value) }
  | none => state

theorem settle_eq (slot : Option Nat) (value : Value) (state : State) :
    settle slot value state = .ok () (filled slot value state) := by
  cases slot <;> rfl

@[simp] theorem filled_interned (slot : Option Nat) (value : Value) (state : State) :
    (filled slot value state).interned = state.interned := by
  cases slot <;> rfl

/-- What holds of the objects in some slots holds of those in one slot more, if it holds of what
that slot contains. -/
theorem forall_mem_slotted {good : Value → Prop} {first : UInt8} {content : Option Value}
    {slots : Array (Option Value)} (before : ∀ value, some value ∈ slots → good value)
    (holds : ∀ value ∈ content, good value) :
    ∀ value, some value ∈ slotted first content slots → good value := by
  intro value member
  rw [slotted] at member
  split at member
  · rcases Array.mem_push.mp member with earlier | same
    · exact before value earlier
    · exact holds value same.symm
  · exact before value member

theorem forall_mem_filled {good : Value → Prop} {value : Value} {state : State}
    (before : ∀ value, some value ∈ state.slots → good value) (holds : good value)
    (slot : Option Nat) : ∀ other, some other ∈ (filled slot value state).slots → good other := by
  intro other member
  cases slot with
  | none => exact before other member
  | some index =>
      rcases Array.mem_or_eq_of_mem_setIfInBounds member with earlier | same
      · exact before other earlier
      · cases same
        exact holds

/-- A slot that is filled at once is reserved with its value. -/
theorem filled_slots_of_reserved {first : UInt8} {value : Value} {state : State}
    {slots : Array (Option Value)} (reserved : state.slots = slotted first none slots) :
    (filled (slotOf first slots) value state).slots = slotted first (some value) slots := by
  by_cases flagged : isFlagged first
  · simp only [slotted, flagged, if_true] at reserved
    simp only [slotOf, slotted, flagged, if_true, filled, reserved]
    rw [← Array.toList_inj]
    simp only [Array.toList_setIfInBounds, Array.toList_push, ← Array.length_toList]
    rw [List.set_append_right _ _ (Nat.le_refl _), Nat.sub_self]
    rfl
  · simp only [slotted, flagged, if_false, Bool.false_eq_true] at reserved
    simp only [slotOf, slotted, flagged, if_false, Bool.false_eq_true, filled, reserved]

/-- An object that is complete at once fills its slot. -/
theorem opening_inl {layout : CodeLayout} {start : Nat} {first : UInt8} {state after : State}
    {value : Value} (result : opening layout start first state = .ok (.inl value) after) :
    after.slots = slotted first (some value) state.slots ∧ after.interned =
      if announces .interned first then state.interned.push value else state.interned := by
  unfold opening at result
  rw [bind_of_ok (reserveFor_eq first state)] at result
  cases known : Tag.ofByte? (withoutFlag first) with
  | none =>
      rw [known] at result
      cases result
  | some tag =>
      simp only [announces, known, beq_iff_eq, Option.some.injEq]
      rw [known] at result
      cases tag with
      | scalar tag =>
          simp only [Tag.scalar.injEq]
          obtain ⟨found, settled, completed, same⟩ := bind_eq_ok result
          cases same
          obtain ⟨found, scanned, read, rest⟩ := bind_eq_ok completed
          obtain ⟨slots, interned⟩ := scalar_ok read
          rw [bind_of_ok (settle_eq _ _ _)] at rest
          cases rest
          exact ⟨filled_slots_of_reserved slots, (filled_interned _ _ _).trans interned⟩
      | sequence kind form =>
          obtain ⟨declared, measured, length, rest⟩ := bind_eq_ok result
          obtain ⟨slots, interned⟩ := (Keeps.lengthOf form).of_ok length
          by_cases empty : declared = 0
          · simp only [empty, if_true] at rest
            obtain ⟨found, settled, finished, same⟩ := bind_eq_ok rest
            cases same
            obtain ⟨found, assembled, wrapped, last⟩ := bind_eq_ok finished
            cases wrapped
            rw [bind_of_ok (settle_eq _ _ _)] at last
            cases last
            simp only [reduceCtorEq, if_false]
            exact ⟨filled_slots_of_reserved slots, (filled_interned _ _ _).trans interned⟩
          · simp only [empty, if_false] at rest
            cases rest
      | dict => cases result
      | unit =>
          obtain ⟨counters, counted, _, same⟩ := bind_eq_ok result
          cases same

end Read

/-- The front of a container, none of whose items have been read. -/
inductive Pending.Fresh : Pending → Prop where
  | sequence (kind : SequenceKind) {declared : Nat} (some : declared ≠ 0) :
      Fresh (.sequence kind declared #[])
  | dict : Fresh (.dict none #[])
  | unit (start : Nat) (counters : Counters) : Fresh (.unit start counters #[] none)

namespace Read

/-- A container that is opened has its slot, which is empty. -/
theorem opening_inr {layout : CodeLayout} {start : Nat} {first : UInt8} {state after : State}
    {frame : Frame} (result : opening layout start first state = .ok (.inr frame) after) :
    after.slots = slotted first none state.slots ∧ after.interned = state.interned ∧
      frame.slot = slotOf first state.slots ∧ frame.pending.Fresh ∧
      ∀ tag, announces tag first = false := by
  unfold opening at result
  rw [bind_of_ok (reserveFor_eq first state)] at result
  simp only [announces, beq_eq_false_iff_ne, ne_eq]
  cases known : Tag.ofByte? (withoutFlag first) with
  | none =>
      rw [known] at result
      cases result
  | some tag =>
      rw [known] at result
      cases tag with
      | scalar tag =>
          obtain ⟨found, settled, _, same⟩ := bind_eq_ok result
          cases same
      | sequence kind form =>
          obtain ⟨declared, measured, length, rest⟩ := bind_eq_ok result
          obtain ⟨slots, interned⟩ := (Keeps.lengthOf form).of_ok length
          by_cases empty : declared = 0
          · simp only [empty, if_true] at rest
            obtain ⟨found, settled, _, same⟩ := bind_eq_ok rest
            cases same
          · simp only [empty, if_false] at rest
            cases rest
            exact ⟨slots, interned, rfl, .sequence kind empty, fun tag same => by cases same⟩
      | dict =>
          cases result
          exact ⟨rfl, rfl, rfl, .dict, fun tag same => by cases same⟩
      | unit =>
          obtain ⟨counters, counted, read, same⟩ := bind_eq_ok result
          obtain ⟨slots, interned⟩ := (Keeps.counters layout).of_ok read
          cases same
          exact ⟨slots, interned, rfl, .unit start counters, fun tag same => by cases same⟩

/-- An object that fails in what follows its first byte leaves its slot empty. -/
theorem opening_error {layout : CodeLayout} {start : Nat} {first : UInt8} {state after : State}
    {error : Error} (result : opening layout start first state = .error error after) :
    after.slots = slotted first none state.slots ∧ after.interned = state.interned := by
  unfold opening at result
  rw [bind_of_ok (reserveFor_eq first state)] at result
  cases known : Tag.ofByte? (withoutFlag first) with
  | none =>
      rw [known] at result
      cases result
      exact ⟨rfl, rfl⟩
  | some tag =>
      rw [known] at result
      cases tag with
      | scalar tag =>
          rcases bind_eq_error result with completed | ⟨found, settled, _, same⟩
          · rcases bind_eq_error completed with read | ⟨found, scanned, _, rest⟩
            · exact scalar_error read
            · rw [bind_of_ok (settle_eq _ _ _)] at rest
              cases rest
          · cases same
      | sequence kind form =>
          rcases bind_eq_error result with length | ⟨declared, measured, _, rest⟩
          · exact (Keeps.lengthOf form).of_error length
          · by_cases empty : declared = 0
            · simp only [empty, if_true, finish, assemble, pure_bind, bind_assoc] at rest
              rw [bind_of_ok (settle_eq _ _ _)] at rest
              cases rest
            · simp only [empty, if_false] at rest
              cases rest
      | dict => cases result
      | unit =>
          rcases bind_eq_error result with read | ⟨counters, counted, _, same⟩
          · exact (Keeps.counters layout).of_error read
          · cases same

/-- A unit keeps its place and its counters when it takes another field. -/
theorem accept_unit {layout : CodeLayout} {value : Value} {start : Nat} {counters : Counters}
    {fields : Array Value} {firstLine : Option UInt32} {opened : Pending} {complete : Bool}
    {state after : State}
    (accepted : accept layout value (.unit start counters fields firstLine) state =
      .ok (opened, complete) after) :
    ∃ line, opened = .unit start counters (fields.push value) line := by
  by_cases lineNext : fields.size + 1 = layout.fieldsBeforeLine
  · simp only [accept, lineNext, if_true] at accepted
    obtain ⟨line, later, _, kept⟩ := bind_eq_ok accepted
    cases kept
    exact ⟨_, rfl⟩
  · simp only [accept, lineNext, if_false] at accepted
    cases accepted
    exact ⟨_, rfl⟩

theorem finish_ok {layout : CodeLayout} {frame : Frame} {state after : State} {value : Value}
    (result : finish layout frame state = .ok value after) :
    ∃ assembled, assemble layout frame.pending state = .ok value assembled ∧
      assembled.slots = state.slots ∧ assembled.interned = state.interned ∧
      after = filled frame.slot value assembled := by
  obtain ⟨found, assembled, read, rest⟩ := bind_eq_ok result
  obtain ⟨slots, interned⟩ := (Keeps.assemble layout frame.pending).of_ok read
  rw [bind_of_ok (settle_eq _ _ _)] at rest
  cases rest
  exact ⟨assembled, read, slots, interned, rfl⟩

theorem finish_error {layout : CodeLayout} {frame : Frame} {state after : State} {error : Error}
    (result : finish layout frame state = .error error after) :
    assemble layout frame.pending state = .error error after ∧
      after.slots = state.slots ∧ after.interned = state.interned := by
  rcases bind_eq_error result with read | ⟨found, assembled, _, rest⟩
  · exact ⟨read, (Keeps.assemble layout frame.pending).of_error read⟩
  · rw [bind_of_ok (settle_eq _ _ _)] at rest
    cases rest

end Read

end PycListing.Marshal
