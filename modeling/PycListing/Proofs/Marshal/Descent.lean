import PycListing.Proofs.Marshal.Step

/-! # Reading objects by recursive descent

The plain way to read an object: its tag, then the objects inside it one after another, each of
them one level further down, then its value. The level is limited as the number of open containers
is. A dict has no declared size; that its entries come to an end is due to the bytes that each of
its keys takes (`PycListing.Marshal.Read.Takes`).
-/

namespace PycListing.Marshal

theorem CodeLayout.fieldsBeforeLine_pos (layout : CodeLayout) : 0 < layout.fieldsBeforeLine := by
  unfold fieldsBeforeLine
  split <;> decide

namespace Read

/-! ## Readers that take bytes -/

/-- A reader that takes at least some number of bytes whenever it succeeds. -/
def Takes {α : Type} (least : Nat) (reader : Read α) : Prop :=
  ∀ state value after, reader state = .ok value after →
    after.input.remaining + least ≤ state.input.remaining

theorem Takes.of_advances {α : Type} {reader : Read α} (advances : Advances reader) :
    Takes 0 reader := by
  intro state value after result
  obtain ⟨count, _, moved⟩ := advances state
  rw [result] at moved
  simp only [finalState] at moved
  rw [moved, Cursor.remaining_advance]
  omega

theorem Takes.bind {α β : Type} {least : Nat} {reader : Read α} {next : α → Read β}
    (first : Takes least reader) (second : ∀ value, Takes 0 (next value)) :
    Takes least (reader >>= next) := by
  intro state value final result
  obtain ⟨found, after, read, rest⟩ := bind_eq_ok result
  have taken := first state found after read
  have takenMore := second found after value final rest
  omega

theorem Takes.bind_right {α β : Type} {least : Nat} {reader : Read α} {next : α → Read β}
    (first : Takes 0 reader) (second : ∀ value, Takes least (next value)) :
    Takes least (reader >>= next) := by
  intro state value final result
  obtain ⟨found, after, read, rest⟩ := bind_eq_ok result
  have taken := first state found after read
  have takenMore := second found after value final rest
  omega

theorem Takes.mono {α : Type} {fewer least : Nat} {reader : Read α} (takes : Takes least reader)
    (below : fewer ≤ least) : Takes fewer reader := by
  intro state value after result
  have := takes state value after result
  omega

theorem Takes.byte : Takes 1 Read.byte := by
  intro state value after result
  cases bytes : state.input.rest with
  | nil =>
      rw [byte_of_nil bytes] at result
      cases result
  | cons first rest =>
      rw [byte_of_cons bytes] at result
      cases result
      have : state.input.remaining = rest.length + 1 := by
        rw [Cursor.remaining, bytes, List.length_cons]
      rw [Cursor.remaining_advance]
      omega

/-- A reader of whole objects. None of them takes up no byte, so a loop over objects comes to an
end. -/
structure ObjectReader where
  reader : Read Value
  takes : Takes 1 reader

namespace ObjectReader

def repeated (object : ObjectReader) : Nat → Read (List Value)
  | 0 => pure []
  | count + 1 => do
    let value ← object.reader
    let rest ← object.repeated count
    pure (value :: rest)

/-- The entries of a dict that are read from a state on, up to a key that is the marker of their
end. -/
def entriesFrom (object : ObjectReader) (state : State) :
    EStateM.Result Error State (List (Value × Value)) :=
  match _first : object.reader state with
  | .error error after => .error error after
  | .ok .null after => .ok [] after
  | .ok key middle =>
    match _second : object.reader middle with
    | .error error after => .error error after
    | .ok value after =>
      match object.entriesFrom after with
      | .error error final => .error error final
      | .ok rest final => .ok ((key, value) :: rest) final
termination_by state.input.remaining
decreasing_by
  have := object.takes state _ _ _first
  have := object.takes middle _ _ _second
  omega

def entries (object : ObjectReader) : Read (List (Value × Value)) :=
  object.entriesFrom

end ObjectReader

/-! ## The descent -/

/-- The unit of stored counters and fields. The error of a unit points at its tag. -/
def unitOf (layout : CodeLayout) (start : Nat) (counters : Counters) (fields : List Value)
    (firstLine : UInt32) : Read Value :=
  match Fields.ofList? layout fields with
  | none => failMalformed start .incompleteUnit
  | some fields =>
    match fields.toUnit layout.era counters firstLine with
    | .ok unit => pure (.code unit)
    | .error defect => failMalformed start defect

/-- What follows a first byte that stands at `start`, given a reader of the objects inside. -/
def content (layout : CodeLayout) (object : ObjectReader) (start : Nat) (first : UInt8) :
    Read Value :=
  match Tag.ofByte? (withoutFlag first) with
  | none => fail start (.unknownTag (withoutFlag first))
  | some (.scalar tag) => scalar layout.era start tag
  | some (.sequence kind form) => do
    let declared ← lengthOf form
    let items ← object.repeated declared
    pure (kind.wrap items)
  | some .dict => do
    let pairs ← object.entries
    pure (.dict pairs)
  | some .unit => do
    let counters ← counters layout
    let fields ← object.repeated layout.fieldsBeforeLine
    let firstLine ← counter layout
    let last ← object.reader
    unitOf layout start counters (fields ++ [last]) firstLine

/-- An object with the objects inside it. The slot of a flagged one is reserved before what
follows its first byte, and filled after it. -/
def objectAbove (layout : CodeLayout) (object : ObjectReader) : Read Value := do
  let start ← offset
  let first ← byte
  let slot ← reserveFor first
  let value ← content layout object start first
  settle slot value
  pure value

theorem Advances.unitOf (layout : CodeLayout) (start : Nat) (counters : Counters)
    (fields : List Value) (firstLine : UInt32) :
    Advances (Read.unitOf layout start counters fields firstLine) := by
  unfold Read.unitOf
  split
  · exact .failMalformed _ _
  · split
    · exact .pure _
    · exact .failMalformed _ _

theorem Takes.repeated (object : ObjectReader) (count : Nat) :
    Takes 0 (object.repeated count) := by
  induction count with
  | zero => exact .of_advances (.pure _)
  | succ count ih =>
      intro state values after result
      have taken := Takes.bind object.takes (fun value =>
        Takes.bind ih fun rest => .of_advances (.pure (value :: rest))) state values after result
      omega

theorem Takes.entries (object : ObjectReader) : Takes 0 object.entries := by
  intro state
  rw [ObjectReader.entries]
  fun_induction ObjectReader.entriesFrom object state with
  | case1 state error after first =>
      intro pairs final result
      cases result
  | case2 state after first =>
      intro pairs final result
      cases result
      have := object.takes state _ _ first
      omega
  | case3 state key middle isKey first error after second =>
      intro pairs final result
      cases result
  | case4 state key middle isKey first value after second error final rest ih =>
      intro pairs final result
      cases result
  | case5 state key middle isKey first value after second more final rest ih =>
      intro pairs later result
      cases result
      have := object.takes state _ _ first
      have := object.takes middle _ _ second
      have := ih more final rest
      omega

theorem Takes.content (layout : CodeLayout) (object : ObjectReader) (start : Nat) (first : UInt8) :
    Takes 0 (Read.content layout object start first) := by
  unfold Read.content
  split
  · exact .of_advances (.fail _ _)
  · exact .of_advances (.scalar _ _ _)
  · exact .bind (.of_advances (.lengthOf _)) fun _ =>
      .bind (.repeated _ _) fun _ => .of_advances (.pure _)
  · exact .bind (.entries _) fun _ => .of_advances (.pure _)
  · exact .bind (.of_advances (.counters _)) fun _ => .bind (.repeated _ _) fun _ =>
      .bind (.of_advances (.counter _)) fun _ =>
        .bind (.mono object.takes (Nat.zero_le _)) fun _ => .of_advances (.unitOf _ _ _ _ _)

theorem Takes.objectAbove (layout : CodeLayout) (object : ObjectReader) :
    Takes 1 (Read.objectAbove layout object) := by
  refine .bind_right (.of_advances .offset) fun start => .bind .byte fun first => ?_
  refine .bind (.of_advances (.reserveFor first)) fun slot => .bind (.content _ _ _ _) ?_
  exact fun value => .of_advances (.bind (.settle slot value) fun _ => .pure value)

theorem Takes.fail {α : Type} (least : Nat) (offset : Nat) (cause : Cause) :
    Takes least (Read.fail offset cause : Read α) := by
  intro state value after result
  cases result

/-- The reader of objects below which some number of levels may still be opened. -/
def object (layout : CodeLayout) : Nat → ObjectReader
  | 0 => ⟨offset >>= fun start => fail start .tooDeep,
      .bind_right (.of_advances .offset) fun _ => .fail _ _ _⟩
  | levels + 1 => ⟨objectAbove layout (object layout levels), .objectAbove _ _⟩

end Read

/-- Reads the next object of a stream that a version wrote, by recursive descent. -/
def descend (version : Version) : Read Value :=
  (Read.object (CodeLayout.ofVersion version) depthLimit).reader

end PycListing.Marshal
