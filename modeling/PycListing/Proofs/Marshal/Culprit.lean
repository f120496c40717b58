import PycListing.Proofs.Fallible
import PycListing.Proofs.Marshal.Step

/-! # What errors point at

An error of the reader carries an offset and a cause. What a stream has to hold at an offset for a
cause to be true of it is said here without the reader (`PycListing.Marshal.Cause.Holds`), and each
part of the reader is shown to fail with no other errors than those
(`PycListing.Marshal.Read.Explains.opening`). The offset of an error was noted before the tag,
before a length, behind a number that the stream was too short for, or long before, when a unit was
begun.
-/

namespace PycListing.Marshal

/-! ## Places in a stream -/

/-- The character of the byte at an offset, less its flag. -/
def letterAt? (stream : List UInt8) (offset : Nat) : Option Char :=
  stream[offset]?.map fun byte => Char.ofNat (withoutFlag byte).toNat

theorem letterAt?_of_first {stream : List UInt8} {offset : Nat} {first : UInt8}
    (stands : stream[offset]? = some first) :
    letterAt? stream offset = some (Char.ofNat (withoutFlag first).toNat) := by
  rw [letterAt?, stands]
  rfl

/-- The signed number of some width that starts at an offset, unless the stream ends within it. -/
def signedAt? (stream : List UInt8) (offset width : Nat) : Option Int :=
  if offset + width ≤ stream.length then
    some (Int.bmod (littleEndian ((stream.drop offset).take width)) (Nat.pow 256 width))
  else none

def scalarLetters : List Char :=
  ['0', 'N', 'F', 'T', 'S', '.', 'i', 'I', 'l', 'f', 'g', 'x', 'y', 's', 't', 'R', 'u', 'a', 'A',
   'z', 'Z', 'r']

def containerLetters : List Char :=
  ['(', ')', '[', '<', '>', '\x7b', 'c']

/-- The object that starts at `start` declares a payload: where the payload starts, and how long it
is. A complex number in decimal has two of them. -/
inductive Declares (stream : List UInt8) (start : Nat) : (offset length : Nat) → Prop where
  | wide {letter : Char} {length : Nat} (tag : letterAt? stream start = some letter)
      (kind : letter ∈ ['s', 't', 'u', 'a', 'A'])
      (declared : signedAt? stream (start + 1) 4 = some (length : Int)) :
      Declares stream start (start + 5) length
  | short {letter : Char} {size : UInt8} (tag : letterAt? stream start = some letter)
      (kind : letter ∈ ['z', 'Z', 'f', 'x']) (declared : stream[start + 1]? = some size) :
      Declares stream start (start + 2) size.toNat
  | imaginary {real size : UInt8} (tag : letterAt? stream start = some 'x')
      (first : stream[start + 1]? = some real)
      (declared : stream[start + 2 + real.toNat]? = some size) :
      Declares stream start (start + 2 + real.toNat + 1) size.toNat

/-! ## Causes -/

/-- What the stream holds where a defect is, given where the objects start that are being read. -/
def Defect.Holds (stream : List UInt8) (objects : List Nat) (offset : Nat) : Defect → Prop
  | .negativeLength =>
    (∃ start ∈ objects, offset = start + 1) ∧
      ∃ stored < 0, signedAt? stream offset 4 = some stored
  | .invalidUtf8 =>
    ∃ start ∈ objects, ∃ length, Declares stream start offset length ∧
      offset + length ≤ stream.length ∧ Text.ofUtf8? ((stream.drop offset).take length) = none
  | .floatLiteral text =>
    ∃ start ∈ objects, ∃ length, Declares stream start (offset + 1) length ∧
      Text.ofUtf8? ((stream.drop (offset + 1)).take length) = some text ∧
      Decimal.readDouble? text = none
  | .longDigit digit =>
    (∃ start ∈ objects, start < offset ∧ letterAt? stream start = some 'l') ∧
      signedAt? stream offset 2 = some digit ∧ digit < 0
  | .fieldType _ _ => offset ∈ objects ∧ letterAt? stream offset = some 'c'
  | .incompleteUnit => offset ∈ objects ∧ letterAt? stream offset = some 'c'

/-- What the stream holds where an error points, given where the objects start that are being
read. -/
def Cause.Holds (stream : List UInt8) (objects : List Nat) (offset : Nat) : Cause → Prop
  | .truncated =>
    offset = stream.length ∨ ∃ start ∈ objects, ∃ length, Declares stream start offset length ∧
      stream.length < offset + length
  | .unknownTag byte =>
    offset ∈ objects ∧ stream[offset]?.map withoutFlag = some byte ∧
      Char.ofNat byte.toNat ∉ scalarLetters ++ containerLetters
  | .badReference index =>
    offset ∈ objects ∧ (letterAt? stream offset = some 'r' ∨ letterAt? stream offset = some 'R') ∧
      ∃ stored, signedAt? stream (offset + 1) 4 = some stored ∧ stored.natAbs = index
  | .malformed defect => defect.Holds stream objects offset
  | .tooDeep =>
    objects.length = depthLimit ∧ ∀ start ∈ objects, start < offset ∧
      ∃ letter ∈ containerLetters, letterAt? stream start = some letter

theorem Cause.truncated_ne_tooDeep : Cause.truncated ≠ .tooDeep :=
  nofun

/-- An error that points into the part of a stream that is read, at its cause. -/
structure Error.Explained (stream : List UInt8) (objects : List Nat) (place : Nat)
    (error : Error) : Prop where
  low : place ≤ error.offset
  high : error.offset ≤ stream.length
  holds : error.cause.Holds stream objects error.offset

/-! ## Letters of tags -/

def ScalarTag.letters : ScalarTag → List Char
  | .null => ['0']
  | .none => ['N']
  | .bool false => ['F']
  | .bool true => ['T']
  | .stopIteration => ['S']
  | .ellipsis => ['.']
  | .int32 => ['i']
  | .int64 => ['I']
  | .long => ['l']
  | .floatText => ['f']
  | .floatBits => ['g']
  | .complexText => ['x']
  | .complexBits => ['y']
  | .bytes => ['s']
  | .interned => ['t']
  | .internedReference => ['R']
  | .text .wide => ['u', 'a', 'A']
  | .text .short => ['z', 'Z']
  | .reference => ['r']

def Tag.letters : Tag → List Char
  | .scalar tag => tag.letters
  | .sequence _ _ => ['(', ')', '[', '<', '>']
  | .dict => ['\x7b']
  | .unit => ['c']

theorem mem_letters_of_ofByte? {byte : UInt8} {tag : Tag} (known : Tag.ofByte? byte = some tag) :
    Char.ofNat byte.toNat ∈ tag.letters := by
  unfold Tag.ofByte? at known
  split at known <;> cases known <;> rename_i same <;> rw [same] <;> decide

theorem not_mem_of_ofByte?_eq_none {byte : UInt8} (unknown : Tag.ofByte? byte = none) :
    Char.ofNat byte.toNat ∉ scalarLetters ++ containerLetters := by
  unfold Tag.ofByte? at unknown
  -- Only the last case is left: the character is none of the letters.
  split at unknown <;> cases unknown
  simp_all [scalarLetters, containerLetters]

/-! ## Fields of units -/

/-- If a field is defective, then in its type. -/
def FaultsInType {α : Type} (result : Except Defect α) : Prop :=
  ∀ defect, result = .error defect → ∃ field found, defect = .fieldType field found

namespace FaultsInType

variable {α β : Type}

theorem ok (value : α) : FaultsInType (.ok value) :=
  fun _ failed => by cases failed

theorem mismatch (field : Field) (found : Value) :
    FaultsInType (field.mismatch found : Except Defect α) := by
  rintro _ ⟨⟩
  exact ⟨field, found.typeName, rfl⟩

theorem bind {result : Except Defect α} {next : α → Except Defect β} (first : FaultsInType result)
    (second : ∀ value, FaultsInType (next value)) : FaultsInType (result >>= next) := by
  cases result with
  | error defect =>
      rintro _ ⟨⟩
      exact first defect rfl
  | ok value => exact second value

theorem bytes (field : Field) (value : Value) : FaultsInType (field.bytes value) := by
  unfold Field.bytes
  split
  · exact ok _
  · exact ok _
  · exact mismatch _ _

theorem items (field : Field) (value : Value) : FaultsInType (field.items value) := by
  unfold Field.items
  split
  · exact ok _
  · exact ok _
  · exact mismatch _ _

theorem string (field : Field) (value : Value) : FaultsInType (field.string value) := by
  unfold Field.string
  split
  · exact ok _
  · exact mismatch _ _

theorem strings (field : Field) (value : Value) : FaultsInType (field.strings value) := by
  refine bind (items field value) fun found defect failed => ?_
  obtain ⟨_, item, _, _, _, mistyped⟩ := mapM_eq_error_iff.mp failed
  exact string field item defect mistyped

theorem toUnit (fields : Fields) (era : Era) (counters : Counters) (firstLine : UInt32) :
    FaultsInType (fields.toUnit era counters firstLine) :=
  bind (bytes _ _) fun _ => bind (items _ _) fun _ => bind (strings _ _) fun _ =>
    bind (strings _ _) fun _ => bind (strings _ _) fun _ => bind (strings _ _) fun _ =>
      bind (string _ _) fun _ => bind (string _ _) fun _ => bind (bytes _ _) fun _ => ok _

end FaultsInType

/-! ## Readers -/

/-- A place in a stream. -/
def placeIn (stream : List UInt8) (offset : Nat) : Cursor :=
  ⟨offset, stream.drop offset⟩

theorem advance_placeIn (stream : List UInt8) (offset count : Nat) :
    (placeIn stream offset).advance count = placeIn stream (offset + count) := by
  rw [placeIn, Cursor.advance, List.drop_drop]
  rfl

theorem remaining_placeIn (stream : List UInt8) (offset : Nat) :
    (placeIn stream offset).remaining = stream.length - offset :=
  List.length_drop

namespace Read

variable {α β : Type}

/-- From an offset on, a reader comes to a value and an offset of which something holds, or fails
with an error that points at its cause, no further back than `place`. That the nesting is too deep
is for others to say. -/
def Explains (stream : List UInt8) (objects : List Nat) (place offset : Nat) (reader : Read α)
    (good : α → Nat → Prop) : Prop :=
  place ≤ offset → offset ≤ stream.length → ∀ state, state.input = placeIn stream offset →
    match reader state with
    | .ok value after => ∃ next, offset ≤ next ∧ next ≤ stream.length ∧
        after.input = placeIn stream next ∧ good value next
    | .error error _ => error.Explained stream objects place ∧ error.cause ≠ .tooDeep

namespace Explains

variable {stream : List UInt8} {objects : List Nat} {place offset start : Nat} {reader : Read α}
  {good : α → Nat → Prop}

theorem of_ok {state after : State} {value : α}
    (explains : Explains stream objects place offset reader good) (low : place ≤ offset)
    (high : offset ≤ stream.length) (here : state.input = placeIn stream offset)
    (read : reader state = .ok value after) :
    ∃ next, offset ≤ next ∧ next ≤ stream.length ∧ after.input = placeIn stream next ∧
      good value next := by
  have outcome := explains low high state here
  rwa [read] at outcome

theorem of_error {state after : State} {error : Error}
    (explains : Explains stream objects place offset reader good) (low : place ≤ offset)
    (high : offset ≤ stream.length) (here : state.input = placeIn stream offset)
    (failed : reader state = .error error after) :
    error.Explained stream objects place ∧ error.cause ≠ .tooDeep := by
  have outcome := explains low high state here
  rwa [failed] at outcome

theorem bind {next : α → Read β} {result : β → Nat → Prop}
    (first : Explains stream objects place offset reader good)
    (second : ∀ value further, good value further →
      Explains stream objects place further (next value) result) :
    Explains stream objects place offset (reader >>= next) result := by
  intro low high state here
  cases came : reader state with
  | error error after =>
      rw [bind_of_error came]
      exact first.of_error low high here came
  | ok value after =>
      obtain ⟨further, onward, within, there, holds⟩ := first.of_ok low high here came
      have rest := second value further holds (Nat.le_trans low onward) within after there
      rw [bind_of_ok came]
      cases last : next value after with
      | error error final =>
          rw [last] at rest
          exact rest
      | ok outcome final =>
          rw [last] at rest
          obtain ⟨end_, more, inside, stands, comes⟩ := rest
          exact ⟨end_, Nat.le_trans onward more, inside, stands, comes⟩

theorem pure {value : α} (holds : good value offset) :
    Explains stream objects place offset (Pure.pure value) good :=
  fun _ high _ here => ⟨offset, Nat.le_refl _, high, here, holds⟩

theorem map {f : α → β} {result : β → Nat → Prop}
    (explains : Explains stream objects place offset reader fun value next =>
      result (f value) next) :
    Explains stream objects place offset (f <$> reader) result := by
  rw [map_eq_pure_bind]
  exact explains.bind fun _ _ => pure

theorem mono {better : α → Nat → Prop} (explains : Explains stream objects place offset reader good)
    (weaker : ∀ value next, good value next → better value next) :
    Explains stream objects place offset reader better := by
  rw [← bind_pure reader]
  exact explains.bind fun value next holds => pure (weaker value next holds)

theorem forget (explains : Explains stream objects place offset reader good) :
    Explains stream objects place offset reader fun _ _ => True :=
  explains.mono fun _ _ _ => trivial

/-- Nothing has to be known about what was read first. -/
theorem andThen {next : α → Read β} {result : β → Nat → Prop}
    (first : Explains stream objects place offset reader fun _ _ => True)
    (second : ∀ value further, Explains stream objects place further (next value) result) :
    Explains stream objects place offset (reader >>= next) result :=
  first.bind fun value further _ => second value further

theorem fail {at_ : Nat} {cause : Cause} (low : place ≤ at_) (high : at_ ≤ stream.length)
    (holds : cause.Holds stream objects at_) (shallow : cause ≠ .tooDeep) :
    Explains stream objects place offset (Read.fail at_ cause : Read α) good :=
  fun _ _ _ _ => ⟨⟨low, high, holds⟩, shallow⟩

/-- A reader of the tables, which always succeeds. -/
theorem of_still (still : ∀ state, ∃ value after, reader state = .ok value after ∧
    after.input = state.input) :
    Explains stream objects place offset reader fun _ next => next = offset := by
  intro _ high state here
  obtain ⟨value, after, came, same⟩ := still state
  rw [came]
  exact ⟨offset, Nat.le_refl _, high, same.trans here, rfl⟩

theorem bind_offset {next : Nat → Read α}
    (rest : Explains stream objects place offset (next offset) good) :
    Explains stream objects place offset (Read.offset >>= next) good := by
  intro low high state here
  rw [offset_bind, here]
  exact rest low high state here

/-! ### Numbers and payloads -/

theorem number (width : Nat) : Explains stream objects place offset (Read.number width)
    fun value next => offset + width ≤ stream.length ∧
      value = littleEndian ((stream.drop offset).take width) ∧ next = offset + width := by
  intro low high state here
  have left : state.input.remaining = stream.length - offset := by rw [here, remaining_placeIn]
  by_cases short : state.input.remaining < width
  · have ended : state.input.offset + state.input.remaining = stream.length := by
      rw [left, here]
      exact Nat.add_sub_cancel' high
    rw [number_of_short short, ended]
    exact ⟨⟨Nat.le_trans low high, Nat.le_refl _, .inl rfl⟩, Cause.truncated_ne_tooDeep⟩
  · rw [number_of_enough (Nat.le_of_not_lt short), here]
    refine ⟨offset + width, ?_, ?_, advance_placeIn _ _ _, ?_, rfl, rfl⟩ <;> omega

theorem signed (width : Nat) : Explains stream objects place offset (Read.signed width)
    fun value next => signedAt? stream offset width = some value ∧ next = offset + width := by
  refine map ((number width).mono ?_)
  rintro value next ⟨enough, rfl, rfl⟩
  exact ⟨if_pos enough, rfl⟩

theorem byte : Explains stream objects place offset Read.byte
    fun value next => stream[offset]? = some value ∧ next = offset + 1 := by
  intro low high state here
  have ahead : state.input.rest = stream.drop offset := by rw [here, placeIn]
  cases bytes : stream.drop offset with
  | nil =>
      have ended : state.input.offset = stream.length := by
        rw [here]
        exact Nat.le_antisymm high (List.drop_eq_nil_iff.mp bytes)
      rw [byte_of_nil (ahead.trans bytes), ended]
      exact ⟨⟨Nat.le_trans low high, Nat.le_refl _, .inl rfl⟩, Cause.truncated_ne_tooDeep⟩
  | cons first rest =>
      have stands : stream[offset]? = some first := by
        rw [← List.head?_drop, bytes, List.head?_cons]
      obtain ⟨inside, _⟩ := List.getElem?_eq_some_iff.mp stands
      rw [byte_of_cons (ahead.trans bytes), here]
      exact ⟨offset + 1, Nat.le_succ _, inside, advance_placeIn _ _ _, stands, rfl⟩

theorem length (member : start ∈ objects) : Explains stream objects place (start + 1) Read.length
    fun value next => signedAt? stream (start + 1) 4 = some (value : Int) ∧ next = start + 5 := by
  intro low high
  refine bind_offset ?_ low high
  refine (signed 4).bind ?_
  rintro value next ⟨stored, rfl⟩
  by_cases negative : value < 0
  · rw [if_pos negative]
    exact fail low high ⟨⟨start, member, rfl⟩, value, negative, stored⟩ nofun
  · rw [if_neg negative]
    refine pure ⟨?_, rfl⟩
    rw [stored, Int.toNat_of_nonneg (Int.not_lt.mp negative)]

theorem payload {length : Nat} (member : start ∈ objects)
    (declared : Declares stream start offset length) :
    Explains stream objects place offset (Read.payload length)
      fun bytes next => offset + length ≤ stream.length ∧
        bytes = (stream.drop offset).take length ∧ next = offset + length := by
  intro low high state here
  have left : state.input.remaining = stream.length - offset := by rw [here, remaining_placeIn]
  by_cases enough : length ≤ state.input.remaining
  · simp only [Read.payload, Cursor.take_eq, enough, if_true]
    rw [here]
    refine ⟨offset + length, ?_, ?_, advance_placeIn _ _ _, ?_, rfl, rfl⟩ <;> omega
  · have beyond : stream.length < offset + length := by omega
    simp only [Read.payload, Cursor.take_eq, enough, if_false]
    rw [here]
    exact ⟨⟨low, high, .inr ⟨start, member, length, declared, beyond⟩⟩,
      Cause.truncated_ne_tooDeep⟩

theorem text {length : Nat} (member : start ∈ objects)
    (declared : Declares stream start offset length) :
    Explains stream objects place offset (Read.text length)
      fun text next => Text.ofUtf8? ((stream.drop offset).take length) = some text ∧
        next = offset + length := by
  intro low high
  refine bind_offset ?_ low high
  refine (payload member declared).bind ?_
  rintro _ _ ⟨within, rfl, rfl⟩
  cases decoded : Text.ofUtf8? ((stream.drop offset).take length) with
  | none => exact fail low high ⟨start, member, length, declared, within, decoded⟩ nofun
  | some text => exact pure ⟨rfl, rfl⟩

/-- A decimal whose length is the byte that stands at the offset. -/
theorem floatText (member : start ∈ objects) (declared : ∀ size, stream[offset]? = some size →
    Declares stream start (offset + 1) size.toNat) :
    Explains stream objects place offset Read.floatText
      fun _ next => ∃ size, stream[offset]? = some size ∧ next = offset + 1 + size.toNat := by
  intro low high
  refine bind_offset ?_ low high
  refine byte.bind ?_
  rintro size _ ⟨stands, rfl⟩
  refine (text member (declared size stands)).bind ?_
  rintro text _ ⟨decoded, rfl⟩
  cases read : Decimal.readDouble? text with
  | none =>
      exact fail low high ⟨start, member, size.toNat, declared size stands, decoded, read⟩ nofun
  | some bits => exact pure ⟨size, stands, rfl⟩

theorem longDigits (member : start ∈ objects) (tag : letterAt? stream start = some 'l')
    (count : Nat) (behind : start < offset) :
    Explains stream objects place offset (Read.longDigits count) fun _ _ => True := by
  induction count generalizing offset with
  | zero => exact pure trivial
  | succ count ih =>
      intro low high
      refine bind_offset ?_ low high
      refine (signed 2).bind ?_
      rintro digit _ ⟨stored, rfl⟩
      by_cases negative : digit < 0
      · rw [if_pos negative]
        exact fail low high ⟨⟨start, member, behind, tag⟩, stored, negative⟩ nofun
      · rw [if_neg negative]
        exact (ih (Nat.lt_of_lt_of_le behind (Nat.le_add_right _ _))).bind fun _ _ _ => pure trivial

/-! ### Scalars -/

theorem lengthOf (member : start ∈ objects) (form : LengthForm) :
    Explains stream objects place (start + 1) (Read.lengthOf form) fun _ _ => True := by
  cases form with
  | short => exact map byte.forget
  | wide => exact (length member).forget

theorem reference (low : place ≤ start) (member : start ∈ objects)
    (tag : letterAt? stream start = some 'r' ∨ letterAt? stream start = some 'R')
    {look : Int → Read (Option Value)} (still : ∀ index state, ∃ found after,
      look index state = .ok found after ∧ after.input = state.input) :
    Explains stream objects place (start + 1) (Read.reference start look) fun _ _ => True := by
  intro within high
  refine bind (signed 4) ?_ within high
  rintro index _ ⟨stored, rfl⟩
  refine (of_still (still index)).bind ?_
  rintro (_ | value) _ rfl
  · exact fail low (Nat.le_of_succ_le high) ⟨member, tag, index, stored, rfl⟩ nofun
  · exact pure trivial

/-- A payload behind its length in four bytes. -/
theorem widePayload {letter : Char} (member : start ∈ objects)
    (tag : letterAt? stream start = some letter) (kind : letter ∈ ['s', 't', 'u', 'a', 'A'])
    {next : Nat → Read α} (rest : ∀ count, Declares stream start (start + 5) count →
      Explains stream objects place (start + 5) (next count) good) :
    Explains stream objects place (start + 1) (Read.length >>= next) good := by
  refine (length member).bind ?_
  rintro count _ ⟨stored, rfl⟩
  exact rest count (.wide tag kind stored)

theorem internedString (member : start ∈ objects) (tag : letterAt? stream start = some 't')
    (era : Era) : Explains stream objects place (start + 1) (Read.internedString era)
      fun _ _ => True := by
  refine widePayload member tag (by decide) fun count declared => ?_
  have joins (value : Value) (further : Nat) : Explains stream objects place further
      (do Read.intern value; Pure.pure value) fun _ _ => True :=
    bind (of_still fun state => ⟨(), _, rfl, rfl⟩) fun _ _ _ => pure trivial
  cases era with
  | legacy => exact (map (payload member declared).forget).andThen joins
  | modern => exact (map (text member declared).forget).andThen joins

theorem floatText_first {letter : Char} (member : start ∈ objects)
    (tag : letterAt? stream start = some letter) (kind : letter ∈ ['z', 'Z', 'f', 'x']) :
    Explains stream objects place (start + 1) Read.floatText fun _ next =>
      ∃ size, stream[start + 1]? = some size ∧ next = start + 2 + size.toNat :=
  floatText member fun _ stands => .short tag kind stands

theorem scalar (low : place ≤ start) (member : start ∈ objects) {letter : Char} {tag : ScalarTag}
    (stands : letterAt? stream start = some letter) (named : letter ∈ tag.letters) (era : Era) :
    Explains stream objects place (start + 1) (Read.scalar era start tag) fun _ _ => True := by
  cases tag with
  | null => exact pure trivial
  | none => exact pure trivial
  | bool => exact pure trivial
  | stopIteration => exact pure trivial
  | ellipsis => exact pure trivial
  | int32 => exact map (signed 4).forget
  | int64 => exact map (signed 8).forget
  | long =>
      obtain rfl : letter = 'l' := List.mem_singleton.mp named
      refine (signed 4).bind ?_
      rintro count _ ⟨-, rfl⟩
      exact (longDigits member stands _ (by omega)).bind fun _ _ _ => pure trivial
  | floatText =>
      obtain rfl : letter = 'f' := List.mem_singleton.mp named
      exact map (floatText_first member stands (by decide)).forget
  | floatBits => exact map (map (number 8).forget)
  | complexText =>
      obtain rfl : letter = 'x' := List.mem_singleton.mp named
      refine (floatText_first member stands (by decide)).bind ?_
      rintro re _ ⟨size, first, rfl⟩
      refine bind (floatText member fun _ => .imaginary stands first) ?_
      exact fun _ _ _ => pure trivial
  | complexBits =>
      have bits (offset : Nat) : Explains stream objects place offset Read.floatBits
          fun _ _ => True := map (number 8).forget
      exact (bits _).bind fun _ _ _ => (bits _).bind fun _ _ _ => pure trivial
  | bytes =>
      obtain rfl : letter = 's' := List.mem_singleton.mp named
      refine widePayload member stands (by decide) fun count declared => ?_
      exact map (payload member declared).forget
  | interned =>
      obtain rfl : letter = 't' := List.mem_singleton.mp named
      exact internedString member stands era
  | internedReference =>
      obtain rfl : letter = 'R' := List.mem_singleton.mp named
      exact reference low member (.inr stands) fun index state => ⟨_, _, rfl, rfl⟩
  | text form =>
      cases form with
      | short =>
          have kind := List.mem_append_left ['f', 'x'] named
          have sized : Explains stream objects place (start + 1) (Read.lengthOf .short)
              fun count next => Declares stream start (start + 2) count ∧ next = start + 2 := by
            refine map (byte.mono ?_)
            rintro size _ ⟨declared, rfl⟩
            exact ⟨.short stands kind declared, rfl⟩
          refine sized.bind ?_
          rintro count _ ⟨declared, rfl⟩
          exact map (text member declared).forget
      | wide =>
          have kind := List.mem_append_right ['s', 't'] named
          refine widePayload member stands kind fun count declared => ?_
          exact map (text member declared).forget
  | reference =>
      obtain rfl : letter = 'r' := List.mem_singleton.mp named
      exact reference low member (.inl stands) fun index state => ⟨_, _, rfl, rfl⟩

/-! ### Containers -/

theorem counter (layout : CodeLayout) :
    Explains stream objects place offset (Read.counter layout) fun _ _ => True :=
  map (number _).forget

theorem counters (layout : CodeLayout) :
    Explains stream objects place offset (Read.counters layout) fun _ _ => True := by
  have others (argCount kwOnlyArgCount : UInt32) (offset : Nat) :
      Explains stream objects place offset (do
        let localCount ← Read.counter layout
        let stackSize ← Read.counter layout
        let flags ← Read.counter layout
        Pure.pure { argCount, kwOnlyArgCount, localCount, stackSize, flags : Counters })
        fun _ _ => True :=
    (counter _).andThen fun _ _ => (counter _).andThen fun _ _ => (counter _).andThen
      fun _ _ => pure trivial
  refine (counter _).andThen fun argCount _ => ?_
  cases layout with
  | modern => exact (counter _).andThen fun _ _ => others _ _ _
  | long => exact (pure trivial).andThen fun _ _ => others _ _ _
  | short => exact (pure trivial).andThen fun _ _ => others _ _ _

end Explains

/-- The object of a container that is open starts at an offset. -/
structure Belongs (stream : List UInt8) (start : Nat) (pending : Pending) : Prop where
  letter : ∃ letter ∈ containerLetters, letterAt? stream start = some letter
  unit : ∀ place counters fields firstLine, pending = .unit place counters fields firstLine →
    place = start ∧ letterAt? stream start = some 'c'

/-- What a first byte opens starts there. -/
def Begins (stream : List UInt8) (start : Nat) : Value ⊕ Frame → Prop
  | .inl _ => True
  | .inr frame => Belongs stream start frame.pending

namespace Explains

variable {stream : List UInt8} {objects : List Nat} {place offset start : Nat}

theorem assemble (low : place ≤ start) (high : start ≤ stream.length) (member : start ∈ objects)
    {pending : Pending} (belongs : Belongs stream start pending) (layout : CodeLayout) :
    Explains stream objects place offset (Read.assemble layout pending) fun _ _ => True := by
  cases pending with
  | sequence => exact pure trivial
  | dict => exact pure trivial
  | unit at_ counters fields firstLine =>
      obtain ⟨rfl, tag⟩ := belongs.unit _ _ _ _ rfl
      simp only [Read.assemble]
      cases Fields.ofList? layout fields.toList with
      | none => exact fail low high ⟨member, tag⟩ nofun
      | some listed =>
          dsimp only
          cases made : listed.toUnit layout.era counters (firstLine.getD 0) with
          | ok unit => exact pure trivial
          | error defect =>
              obtain ⟨field, found, rfl⟩ := FaultsInType.toUnit _ _ _ _ defect made
              exact fail low high ⟨member, tag⟩ nofun

theorem settle (slot : Option Nat) (value : Value) :
    Explains stream objects place offset (Read.settle slot value) fun _ next => next = offset :=
  of_still fun _ => by cases slot <;> exact ⟨(), _, rfl, rfl⟩

theorem finish (low : place ≤ start) (high : start ≤ stream.length) (member : start ∈ objects)
    {frame : Frame} (belongs : Belongs stream start frame.pending) (layout : CodeLayout) :
    Explains stream objects place offset (Read.finish layout frame) fun _ _ => True :=
  (assemble low high member belongs layout).bind fun _ _ _ =>
    (settle _ _).bind fun _ _ _ => pure trivial

theorem accept (layout : CodeLayout) (value : Value) (pending : Pending) :
    Explains stream objects place offset (Read.accept layout value pending) fun _ _ => True := by
  unfold Read.accept
  split
  · exact pure trivial
  · exact pure trivial
  · split <;> exact pure trivial
  · split
    · exact (counter layout).bind fun _ _ _ => pure trivial
    · exact pure trivial

/-- What follows a first byte fails at its cause, or opens what the byte announces. -/
theorem opening (low : place ≤ start) (member : start ∈ objects) {first : UInt8}
    (stands : stream[start]? = some first) (layout : CodeLayout) :
    Explains stream objects place (start + 1) (Read.opening layout start first)
      fun front _ => Begins stream start front := by
  have letter := letterAt?_of_first stands
  intro within high
  have reserved : Explains stream objects place (start + 1) (reserveFor first)
      fun _ next => next = start + 1 := by
    refine of_still fun state => ?_
    unfold reserveFor
    split
    · exact ⟨_, _, rfl, rfl⟩
    · exact ⟨_, _, rfl, rfl⟩
  refine reserved.bind ?_ within high
  rintro slot _ rfl
  cases known : Tag.ofByte? (withoutFlag first) with
  | none =>
      refine fail low (Nat.le_of_succ_le high) ⟨member, ?_, not_mem_of_ofByte?_eq_none known⟩ nofun
      rw [stands]
      rfl
  | some tag =>
      have named := mem_letters_of_ofByte? known
      cases tag with
      | scalar tag =>
          have settled : Explains stream objects place (start + 1)
              (settledScalar layout start slot tag) fun _ _ => True :=
            (scalar low member letter named layout.era).andThen fun value _ =>
              (settle slot value).bind fun _ _ _ => pure trivial
          exact settled.andThen fun _ _ => pure trivial
      | sequence kind form =>
          have belongs : ∀ declared, Belongs stream start (.sequence kind declared #[]) := by
            have among := List.mem_append_left ['\x7b', 'c'] named
            exact fun declared => ⟨⟨_, among, letter⟩, fun _ _ _ _ other => by cases other⟩
          refine (lengthOf member form).bind fun declared _ _ => ?_
          by_cases empty : declared = 0
          · simp only [empty, if_true]
            refine (finish low (Nat.le_of_succ_le high) member (belongs 0) layout).bind
              fun _ _ _ => pure trivial
          · simp only [empty, if_false]
            exact pure (belongs declared)
      | dict =>
          have same := List.mem_singleton.mp named
          have among : '\x7b' ∈ containerLetters := by decide
          exact pure ⟨⟨_, same ▸ among, letter⟩, fun _ _ _ _ other => by cases other⟩
      | unit =>
          have same := List.mem_singleton.mp named
          refine (counters layout).bind fun stored _ _ => pure ⟨⟨'c', by decide, ?_⟩, ?_⟩
          · rw [letter, same]
          · rintro _ _ _ _ ⟨⟩
            exact ⟨rfl, by rw [letter, same]⟩

end Explains

end Read

end PycListing.Marshal
