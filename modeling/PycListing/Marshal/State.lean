import PycListing.Cursor
import PycListing.Code.Unit
import PycListing.Decimal.Reading
import PycListing.Marshal.Error
import PycListing.Text.Utf8

/-! # State of the marshal reader

The reader holds its place in the stream, the slots of the objects that may be referred to, and
the interned strings. The state outlives an error, so that reading can go on after it. Every
reader `Advances`: it only moves forward in the stream, and never past its end.
-/

namespace PycListing.Marshal

/-- What the reader keeps between objects. -/
structure State where
  input : Cursor
  /-- One slot for each flagged object, in the order of their tags, empty until the object is
  complete. -/
  slots : Array (Option Value)
  /-- The interned strings, in stream order. -/
  interned : Array Value

/-- The state before anything of a stream was read. -/
def State.start (stream : List UInt8) : State :=
  ⟨Cursor.start stream, #[], #[]⟩

/-- A reader of some part of an object. -/
abbrev Read (α : Type) := EStateM Error State α

namespace Read

/-- The state that a reading leaves, failed or not. -/
def finalState {α : Type} : EStateM.Result Error State α → State
  | .ok _ state => state
  | .error _ state => state

/-- A reader only moves forward, and never past the end of the stream. -/
def Advances {α : Type} (reader : Read α) : Prop :=
  ∀ state, ∃ count, count ≤ state.input.remaining ∧
    (finalState (reader state)).input = state.input.advance count

/-- The offset in the stream. -/
def offset : Read Nat :=
  fun state => .ok state.input.offset state

/-- Fails with a cause that an offset points at. -/
def fail {α : Type} (offset : Nat) (cause : Cause) : Read α :=
  fun state => .error ⟨offset, cause⟩ state

/-- Fails with a defect that an offset points at. -/
def failMalformed {α : Type} (offset : Nat) (defect : Defect) : Read α :=
  fail offset (.malformed defect)

/-- A fixed number of bytes as a little-endian number. If the stream is shorter, all of it is
skipped, and the error points at its end. -/
def number (width : Nat) : Read Nat :=
  fun state =>
    match state.input.takeNumber width with
    | .ok (value, after) => .ok value { state with input := after }
    | .error _ =>
      let skipped := state.input.advance state.input.remaining
      .error ⟨skipped.offset, .truncated⟩ { state with input := skipped }

def byte : Read UInt8 :=
  Nat.toUInt8 <$> number 1

/-- A signed number of some width in bytes, in two's complement. -/
def signed (width : Nat) : Read Int :=
  (fun value : Nat => Int.bmod value (Nat.pow 256 width)) <$> number width

/-- A length. The error of a negative one points at the length. -/
def length : Read Nat := do
  let start ← offset
  let value ← signed 4
  if value < 0 then failMalformed start .negativeLength else pure value.toNat

/-- A payload of some length. If the stream is shorter, nothing is skipped. -/
def payload (length : Nat) : Read (List UInt8) :=
  fun state =>
    match state.input.take length with
    | .ok (bytes, after) => .ok bytes { state with input := after }
    | .error _ => .error ⟨state.input.offset, .truncated⟩ state

/-- A payload that is UTF-8. The error of another one points at its start. -/
def text (length : Nat) : Read String := do
  let start ← offset
  let bytes ← payload length
  match Text.ofUtf8? bytes with
  | some text => pure text
  | none => failMalformed start .invalidUtf8

/-- A float in decimal, after its length. The error points at the length. -/
def floatText : Read UInt64 := do
  let start ← offset
  let length ← byte
  let text ← text length.toNat
  match Decimal.readDouble? text with
  | some bits => pure bits
  | none => failMalformed start (.floatLiteral text)

/-- The bits of a double. -/
def floatBits : Read UInt64 :=
  Nat.toUInt64 <$> number 8

/-- Digits of a long integer, least significant first. The error of a digit out of range points
at it. -/
def longDigits : Nat → Read (List Nat)
  | 0 => pure []
  | count + 1 => do
    let start ← offset
    let digit ← signed 2
    if digit < 0 then failMalformed start (.longDigit digit)
    else do
      let more ← longDigits count
      pure (digit.toNat :: more)

/-- Reserves the slot of a flagged object. -/
def reserve : Read Nat :=
  fun state => .ok state.slots.size { state with slots := state.slots.push none }

/-- Fills the slot of an object, if it has one. -/
def settle (slot : Option Nat) (value : Value) : Read Unit :=
  fun state =>
    match slot with
    | some index => .ok () { state with slots := state.slots.setIfInBounds index (some value) }
    | none => .ok () state

/-- Adds an interned string. -/
def intern (value : Value) : Read Unit :=
  fun state => .ok () { state with interned := state.interned.push value }

/-- The object that an index refers to, if it is complete. -/
def referred? (index : Int) : Read (Option Value) :=
  fun state => .ok (if index < 0 then none else (state.slots[index.toNat]?).join) state

/-- The interned string that an index refers to. -/
def internedAt? (index : Int) : Read (Option Value) :=
  fun state => .ok (if index < 0 then none else state.interned[index.toNat]?) state

/-! ## Readers advance -/

theorem Advances.of_input_eq {α : Type} {reader : Read α}
    (same : ∀ state, (finalState (reader state)).input = state.input) : Advances reader :=
  fun state => ⟨0, Nat.zero_le _, by rw [same, Cursor.advance_zero]⟩

theorem Advances.pure {α : Type} (value : α) : Advances (Pure.pure value : Read α) :=
  .of_input_eq fun _ => rfl

theorem Advances.fail {α : Type} (offset : Nat) (cause : Cause) :
    Advances (Read.fail offset cause : Read α) :=
  .of_input_eq fun _ => rfl

theorem Advances.failMalformed {α : Type} (offset : Nat) (defect : Defect) :
    Advances (Read.failMalformed offset defect : Read α) :=
  .fail _ _

theorem Advances.offset : Advances Read.offset :=
  .of_input_eq fun _ => rfl

theorem Advances.reserve : Advances Read.reserve :=
  .of_input_eq fun _ => rfl

theorem Advances.settle (slot : Option Nat) (value : Value) : Advances (Read.settle slot value) :=
  .of_input_eq fun _ => by cases slot <;> rfl

theorem Advances.intern (value : Value) : Advances (Read.intern value) :=
  .of_input_eq fun _ => rfl

theorem Advances.referred? (index : Int) : Advances (Read.referred? index) :=
  .of_input_eq fun _ => rfl

theorem Advances.internedAt? (index : Int) : Advances (Read.internedAt? index) :=
  .of_input_eq fun _ => rfl

theorem Advances.bind {α β : Type} {reader : Read α} {next : α → Read β}
    (first : Advances reader) (second : ∀ value, Advances (next value)) :
    Advances (reader >>= next) := by
  intro state
  obtain ⟨count, within, moved⟩ := first state
  simp only [Bind.bind, EStateM.bind]
  cases result : reader state with
  | error error after =>
    rw [result] at moved
    exact ⟨count, within, moved⟩
  | ok value after =>
    rw [result] at moved
    obtain ⟨more, withinMore, movedMore⟩ := second value after
    simp only [finalState] at moved
    rw [moved, Cursor.remaining_advance] at withinMore
    refine ⟨count + more, by omega, ?_⟩
    simp only [movedMore, moved, Cursor.advance_advance]

theorem Advances.map {α β : Type} {reader : Read α} (f : α → β) (advances : Advances reader) :
    Advances (f <$> reader) := by
  intro state
  obtain ⟨count, within, moved⟩ := advances state
  refine ⟨count, within, ?_⟩
  simp only [Functor.map, EStateM.map]
  cases result : reader state <;> rw [result] at moved <;> exact moved

theorem Advances.number (width : Nat) : Advances (Read.number width) := by
  intro state
  simp only [Read.number, Cursor.takeNumber, Cursor.take_eq]
  split
  · rename_i enough
    split at enough
    · rename_i fits
      simp only [Except.map, Except.ok.injEq, Prod.mk.injEq] at enough
      exact ⟨width, fits, enough.2.symm⟩
    · simp only [Except.map, reduceCtorEq] at enough
  · exact ⟨state.input.remaining, Nat.le_refl _, rfl⟩

theorem Advances.payload (length : Nat) : Advances (Read.payload length) := by
  intro state
  simp only [Read.payload, Cursor.take_eq]
  split
  · rename_i enough
    split at enough
    · rename_i fits
      simp only [Except.ok.injEq, Prod.mk.injEq] at enough
      exact ⟨length, fits, enough.2.symm⟩
    · simp only [reduceCtorEq] at enough
  · exact ⟨0, Nat.zero_le _, (Cursor.advance_zero _).symm⟩

theorem Advances.byte : Advances Read.byte :=
  .map _ (.number 1)

theorem Advances.signed (width : Nat) : Advances (Read.signed width) :=
  .map _ (.number width)

theorem Advances.floatBits : Advances Read.floatBits :=
  .map _ (.number 8)

theorem Advances.length : Advances Read.length := by
  refine .bind .offset fun _ => .bind (.signed 4) fun value => ?_
  split
  · exact .failMalformed _ _
  · exact .pure _

theorem Advances.text (length : Nat) : Advances (Read.text length) := by
  refine .bind .offset fun _ => .bind (.payload length) fun bytes => ?_
  split
  · exact .pure _
  · exact .failMalformed _ _

theorem Advances.floatText : Advances Read.floatText := by
  refine .bind .offset fun _ => .bind .byte fun length => .bind (.text _) fun text => ?_
  split
  · exact .pure _
  · exact .failMalformed _ _

theorem Advances.longDigits (count : Nat) : Advances (Read.longDigits count) := by
  induction count with
  | zero => exact .pure _
  | succ count ih =>
    refine .bind .offset fun _ => .bind (.signed 2) fun digit => ?_
    split
    · exact .failMalformed _ _
    · exact .bind ih fun _ => .pure _

end Read

end PycListing.Marshal
