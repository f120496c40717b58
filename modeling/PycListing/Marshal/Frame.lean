import PycListing.Marshal.Scalar

/-! # Open containers

A container whose items are still being read is a frame. A complete object is handed to the
innermost frame; a frame that has all of its items becomes an object itself.
-/

namespace PycListing.Marshal

/-- The counters that a stored unit starts with. -/
structure Counters where
  argCount : UInt32
  kwOnlyArgCount : UInt32
  localCount : UInt32
  stackSize : UInt32
  flags : UInt32
  deriving DecidableEq, Repr

/-- The part of a container that has been read. -/
inductive Pending where
  /-- A sequence of a declared number of items. -/
  | sequence (kind : SequenceKind) (declared : Nat) (items : Array Value)
  /-- The entries of a dict, and the key that a value is awaited for. -/
  | dict (key : Option Value) (pairs : Array (Value × Value))
  /-- A unit whose tag stands at `start`. The first line is read once the fields before it are
  complete. -/
  | unit (start : Nat) (counters : Counters) (fields : Array Value) (firstLine : Option UInt32)

/-- A container whose items are still being read, with the slot reserved for it if it is
flagged. -/
structure Frame where
  slot : Option Nat
  pending : Pending

/-! ## Fields of units -/

namespace Field

/-- The defect of a field, or an item of it, that has the wrong type. -/
def mismatch {α : Type} (field : Field) (found : Value) : Except Defect α :=
  .error (.fieldType field found.typeName)

/-- The content of a field of bytes. A text stands for its UTF-8 bytes. -/
def bytes (field : Field) : Value → Except Defect (List UInt8)
  | .bytes content => .ok content
  | .str text => .ok (Text.utf8Bytes text)
  | found => field.mismatch found

/-- The items of a field that is a tuple or a list. -/
def items (field : Field) : Value → Except Defect (List Value)
  | .tuple items => .ok items
  | .list items => .ok items
  | found => field.mismatch found

/-- The text of a string-like field. -/
def string (field : Field) (value : Value) : Except Defect String :=
  match value.text? with
  | some text => .ok text
  | none => field.mismatch value

/-- The texts of a field that is a tuple or a list of string-like values. -/
def strings (field : Field) (value : Value) : Except Defect (List String) := do
  let items ← field.items value
  items.mapM field.string

end Field

/-- The fields of a stored unit, in their order. -/
structure Fields where
  code : Value
  consts : Value
  names : Value
  varnames : Value
  freevars : Value
  cellvars : Value
  filename : Value
  name : Value
  lineTable : Value

/-- The fields of a layout. Where closures are not stored, there are no variables of them. -/
def Fields.ofList? (layout : CodeLayout) (values : List Value) : Option Fields :=
  match layout.hasClosures, values with
  | true, [code, consts, names, varnames, freevars, cellvars, filename, name, lineTable] =>
    some ⟨code, consts, names, varnames, freevars, cellvars, filename, name, lineTable⟩
  | false, [code, consts, names, varnames, filename, name, lineTable] =>
    some ⟨code, consts, names, varnames, .tuple [], .tuple [], filename, name, lineTable⟩
  | _, _ => none

/-- The unit of stored counters and fields. The first field of a wrong type is the defect. -/
def Fields.toUnit (fields : Fields) (era : Era) (counters : Counters) (firstLine : UInt32) :
    Except Defect CodeUnit := do
  let code ← Field.code.bytes fields.code
  let consts ← Field.consts.items fields.consts
  let names ← Field.names.strings fields.names
  let varnames ← Field.varnames.strings fields.varnames
  let freevars ← Field.freevars.strings fields.freevars
  let cellvars ← Field.cellvars.strings fields.cellvars
  let filename ← Field.filename.string fields.filename
  let name ← Field.name.string fields.name
  let lineTable ← Field.lineTable.bytes fields.lineTable
  pure
    { era, code, consts, names, varnames, freevars, cellvars, filename, name, firstLine, lineTable
      argCount := counters.argCount
      kwOnlyArgCount := counters.kwOnlyArgCount
      localCount := counters.localCount
      stackSize := counters.stackSize
      flags := counters.flags }

namespace Read

/-- A counter of a layout's width. -/
def counter (layout : CodeLayout) : Read UInt32 :=
  Nat.toUInt32 <$> number layout.counterWidth

/-- The counters of a unit. Layouts of the legacy era store none of keyword-only parameters. -/
def counters (layout : CodeLayout) : Read Counters := do
  let argCount ← counter layout
  let kwOnlyArgCount ← match layout with
    | .modern => counter layout
    | _ => pure 0
  let localCount ← counter layout
  let stackSize ← counter layout
  let flags ← counter layout
  pure { argCount, kwOnlyArgCount, localCount, stackSize, flags }

/-- Hands an object to a container. Comes back with the container, and whether it is complete. -/
def accept (layout : CodeLayout) (value : Value) : Pending → Read (Pending × Bool)
  | .sequence kind declared items =>
    let items := items.push value
    pure (.sequence kind declared items, items.size == declared)
  | .dict (some key) pairs => pure (.dict none (pairs.push (key, value)), false)
  | .dict none pairs =>
    match value with
    | .null => pure (.dict none pairs, true)
    | key => pure (.dict (some key) pairs, false)
  | .unit start counters fields firstLine =>
    if fields.size + 1 = layout.fieldsBeforeLine then do
      let line ← counter layout
      pure (.unit start counters (fields.push value) (some line), false)
    else
      pure (.unit start counters (fields.push value) firstLine,
        layout.fieldsBeforeLine ≤ fields.size)

/-- The value of a container that is complete. The error of a unit points at its tag. -/
def assemble (layout : CodeLayout) : Pending → Read Value
  | .sequence kind _ items => pure (kind.wrap items.toList)
  | .dict _ pairs => pure (.dict pairs.toList)
  | .unit start counters fields firstLine =>
    match Fields.ofList? layout fields.toList with
    | none => failMalformed start .incompleteUnit
    | some fields =>
      match fields.toUnit layout.era counters (firstLine.getD 0) with
      | .ok unit => pure (.code unit)
      | .error defect => failMalformed start defect

/-- The value of a complete frame, which fills the frame's slot. -/
def finish (layout : CodeLayout) (frame : Frame) : Read Value := do
  let value ← assemble layout frame.pending
  settle frame.slot value
  pure value

/-- Hands an object to the innermost of some frames, and each frame that becomes complete to the
next. Comes back with the frames that are still open, or with the object that no frame awaits. -/
def deliver (layout : CodeLayout) (value : Value) : List Frame → Read (Value ⊕ List Frame)
  | [] => pure (.inl value)
  | frame :: outer => do
    let (pending, complete) ← accept layout value frame.pending
    if complete then do
      let value ← finish layout { frame with pending }
      deliver layout value outer
    else
      pure (.inr ({ frame with pending } :: outer))

/-! ## Readers of containers advance -/

theorem Advances.counter (layout : CodeLayout) : Advances (Read.counter layout) :=
  .map _ (.number _)

theorem Advances.counters (layout : CodeLayout) : Advances (Read.counters layout) := by
  have others : ∀ argCount kwOnlyArgCount : UInt32, Advances (do
      let localCount ← Read.counter layout
      let stackSize ← Read.counter layout
      let flags ← Read.counter layout
      Pure.pure { argCount, kwOnlyArgCount, localCount, stackSize, flags : Counters }) :=
    fun _ _ => .bind (.counter _) fun _ => .bind (.counter _) fun _ =>
      .bind (.counter _) fun _ => .pure _
  refine .bind (.counter _) fun argCount => ?_
  cases layout with
  | modern => exact .bind (.counter _) fun _ => others _ _
  | long => exact .bind (.pure _) fun _ => others _ _
  | short => exact .bind (.pure _) fun _ => others _ _

theorem Advances.accept (layout : CodeLayout) (value : Value) (pending : Pending) :
    Advances (Read.accept layout value pending) := by
  unfold Read.accept
  split
  · exact .pure _
  · exact .pure _
  · split <;> exact .pure _
  · split
    · exact .bind (.counter _) fun _ => .pure _
    · exact .pure _

theorem Advances.assemble (layout : CodeLayout) (pending : Pending) :
    Advances (Read.assemble layout pending) := by
  unfold Read.assemble
  split
  · exact .pure _
  · exact .pure _
  · split
    · exact .failMalformed _ _
    · split
      · exact .pure _
      · exact .failMalformed _ _

theorem Advances.finish (layout : CodeLayout) (frame : Frame) :
    Advances (Read.finish layout frame) :=
  .bind (.assemble _ _) fun _ => .bind (.settle _ _) fun _ => .pure _

theorem Advances.deliver (layout : CodeLayout) (value : Value) (frames : List Frame) :
    Advances (Read.deliver layout value frames) := by
  induction frames generalizing value with
  | nil => exact .pure _
  | cons frame outer ih =>
    refine .bind (.accept _ _ _) fun (pending, complete) => ?_
    dsimp only
    split
    · exact .bind (.finish _ _) fun _ => ih _
    · exact .pure _

end Read

end PycListing.Marshal
