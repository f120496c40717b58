import PycListing.Proofs.Checked.Word
import PycListing.Proofs.Marshal.Session

/-! # Counting down what is awaited

A reader may keep, instead of the number of items that a sequence declares, how many of them it
still awaits, and count that down with each item. It stops with a fault where the count would fall
below zero. Reading what follows a first byte, it only differs in when it looks whether a sequence
is empty (`PycListing.Marshal.Countdown.opening_eq_front`).
-/

namespace PycListing.Marshal

namespace Countdown

/-! ## The reader -/

/-- The part of a container that has been read, and of a sequence how many items it awaits. -/
inductive Pending where
  | sequence (kind : SequenceKind) (left : Nat) (items : Array Value)
  | dict (key : Option Value) (pairs : Array (Value × Value))
  | unit (start : Nat) (counters : Counters) (fields : Array Value) (firstLine : Option UInt32)

/-- The same part of a container, with the number of items that a sequence declares. -/
def Pending.plain : Pending → Marshal.Pending
  | .sequence kind left items => .sequence kind (items.size + left) items
  | .dict key pairs => .dict key pairs
  | .unit start counters fields firstLine => .unit start counters fields firstLine

/-- Whether a container awaits nothing before it was handed anything. -/
def Pending.isDone : Pending → Bool
  | .sequence _ left _ => left == 0
  | .dict _ _ => false
  | .unit _ _ _ _ => false

/-- A container whose items are still being read, and where its object starts. -/
structure Frame where
  start : Nat
  slot : Option Nat
  pending : Pending

def Frame.plain (frame : Frame) : Marshal.Frame :=
  ⟨frame.slot, frame.pending.plain⟩

/-- Reads what follows a first byte, which stands at `start`: an object that holds no others, or
the front of a container. -/
def front (layout : CodeLayout) (start : Nat) (first : UInt8) : Read (Value ⊕ Frame) := do
  let slot ← Read.reserveFor first
  match Tag.ofByte? (withoutFlag first) with
  | none => Read.fail start (.unknownTag (withoutFlag first))
  | some (.scalar tag) => do
    let value ← Read.settledScalar layout start slot tag
    pure (.inl value)
  | some (.sequence kind form) => do
    let left ← Read.lengthOf form
    pure (.inr ⟨start, slot, .sequence kind left #[]⟩)
  | some .dict => pure (.inr ⟨start, slot, .dict none #[]⟩)
  | some .unit => do
    let counters ← Read.counters layout
    pure (.inr ⟨start, slot, .unit start counters #[] none⟩)

/-- Hands an object to a container, and tells whether it is complete. -/
def accept (layout : CodeLayout) (value : Value) : Pending → Except Fault (Read (Pending × Bool))
  | .sequence kind left items => do
    let left ← Checked.sub left 1
    pure (pure (.sequence kind left (items.push value), left == 0))
  | .dict (some key) pairs => pure (pure (.dict none (pairs.push (key, value)), false))
  | .dict none pairs =>
    match value with
    | .null => pure (pure (.dict none pairs, true))
    | key => pure (pure (.dict (some key) pairs, false))
  | .unit start counters fields firstLine =>
    let fields := fields.push value
    pure do
      let firstLine ←
        if fields.size = layout.fieldsBeforeLine then some <$> Read.counter layout
        else pure firstLine
      pure (.unit start counters fields firstLine, decide (layout.fieldsBeforeLine < fields.size))

end Countdown

/-- A reader that counts down, which is asked for one object after another. -/
structure Countdown where
  state : State
  frames : List Countdown.Frame
  /-- An object that is complete and was not yet handed to the innermost frame. -/
  held : Option Value
  /-- What the calls came back with so far, the last one first. -/
  results : List (Except Error Value)
  /-- The containers that were complete so far, the last one first. -/
  finished : List Countdown.Frame

namespace Countdown

def start (stream : List UInt8) : Countdown :=
  ⟨State.start stream, [], none, [], []⟩

def fails (reader : Countdown) (error : Error) (after : State) : Countdown :=
  { reader with
    state := after
    frames := []
    held := none
    results := .error error :: reader.results }

/-- A container that is complete becomes an object. -/
def closes (layout : CodeLayout) (reader : Countdown) (frame : Frame) (outer : List Frame)
    (after : State) : Countdown :=
  let reader := { reader with finished := frame :: reader.finished }
  match Read.finish layout frame.plain after with
  | .error error final => reader.fails error final
  | .ok value final => { reader with state := final, frames := outer, held := some value }

/-- Takes the next tag, and reads what it announces. -/
def takeTag (layout : CodeLayout) (reader : Countdown) : Countdown :=
  if depthLimit ≤ reader.frames.length then
    reader.fails ⟨reader.state.input.offset, .tooDeep⟩ reader.state
  else
    match Read.byte reader.state with
    | .error error after => reader.fails error after
    | .ok first after =>
      match front layout reader.state.input.offset first after with
      | .error error final => reader.fails error final
      | .ok (.inl value) final => { reader with state := final, held := some value }
      | .ok (.inr frame) final =>
        if frame.pending.isDone then reader.closes layout frame reader.frames final
        else { reader with state := final, frames := frame :: reader.frames }

/-- Hands a complete object to the innermost frame. -/
def handOver (layout : CodeLayout) (reader : Countdown) (value : Value) (frame : Frame)
    (outer : List Frame) : Except Fault Countdown := do
  let accepting ← accept layout value frame.pending
  match accepting reader.state with
  | .error error after => pure (reader.fails error after)
  | .ok (pending, true) after => pure (reader.closes layout { frame with pending } outer after)
  | .ok (pending, false) after =>
    pure { reader with state := after, frames := { frame with pending } :: outer, held := none }

def next (layout : CodeLayout) (reader : Countdown) : Except Fault Countdown :=
  match reader.held, reader.frames with
  | none, _ => pure (reader.takeTag layout)
  | some value, [] => pure { reader with held := none, results := .ok value :: reader.results }
  | some value, frame :: outer => reader.handOver layout value frame outer

/-- The reader of a stream that a version wrote, after some number of steps. -/
def after (version : Version) (stream : List UInt8) : Nat → Except Fault Countdown
  | 0 => pure (start stream)
  | steps + 1 => after version stream steps >>= next (.ofVersion version)

/-! ## What follows a first byte -/

/-- A sequence that awaits nothing is complete at once. -/
def closeFront (layout : CodeLayout) : Value ⊕ Frame → Read (Value ⊕ Marshal.Frame)
  | .inl value => pure (.inl value)
  | .inr frame =>
    if frame.pending.isDone then do
      let value ← Read.finish layout frame.plain
      pure (.inl value)
    else pure (.inr frame.plain)

theorem opening_eq_front (layout : CodeLayout) (start : Nat) (first : UInt8) :
    Read.opening layout start first = front layout start first >>= closeFront layout := by
  simp only [Read.opening, front, bind_assoc]
  congr 1
  funext slot
  cases Tag.ofByte? (withoutFlag first) with
  | none => rfl
  | some tag =>
      cases tag with
      | scalar tag =>
          simp only [bind_assoc, pure_bind]
          rfl
      | sequence kind form =>
          simp only [bind_assoc, pure_bind]
          congr 1
          funext declared
          by_cases empty : declared = 0
          · simp only [empty, if_true]
            rfl
          · simp only [empty, if_false, closeFront, Pending.isDone, beq_eq_false_iff_ne.mpr empty,
              Bool.false_eq_true, Frame.plain, Pending.plain, Array.size_empty, Nat.zero_add]
      | dict => rfl
      | unit =>
          simp only [bind_assoc, pure_bind]
          rfl

end Countdown

end PycListing.Marshal
