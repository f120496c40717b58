import PycListing.Proofs.Marshal.Descent
import PycListing.Proofs.Marshal.Footprint

/-! # The stack of containers is a descent

Reading on an explicit stack of containers is the same reader as recursive descent
(`PycListing.Marshal.read_eq_descend`): from every state it comes back with the same value or the
same error, and it leaves the same state.

What joins the two is the rest of a container (`PycListing.Marshal.Read.remainder`): the part of a
descent that is still to come once some of the items have been read. Both readers take it apart
item by item (`PycListing.Marshal.Read.remainder_eq`).
-/

namespace PycListing.Marshal

namespace Read

/-! ## What is left of a container -/

/-- The rest of a container, some of whose items have been read. -/
def remainder (layout : CodeLayout) (object : ObjectReader) : Pending → Read Value
  | .sequence kind declared items => do
    let rest ← object.repeated (declared - items.size)
    pure (kind.wrap (items.toList ++ rest))
  | .dict none pairs => do
    let rest ← object.entries
    pure (.dict (pairs.toList ++ rest))
  | .dict (some key) pairs => do
    let value ← object.reader
    let rest ← object.entries
    pure (.dict (pairs.toList ++ (key, value) :: rest))
  | .unit start counters fields none => do
    let rest ← object.repeated (layout.fieldsBeforeLine - fields.size)
    let firstLine ← counter layout
    let last ← object.reader
    unitOf layout start counters (fields.toList ++ rest ++ [last]) firstLine
  | .unit start counters fields (some firstLine) => do
    let last ← object.reader
    unitOf layout start counters (fields.toList ++ [last]) firstLine

end Read

/-- A container that is short of an item. Until the first line was read, a unit is short of a
field before it, and after that of the one field behind it. -/
def Pending.Awaits (layout : CodeLayout) : Pending → Prop
  | .sequence _ declared items => items.size < declared
  | .dict _ _ => True
  | .unit _ _ fields none => fields.size < layout.fieldsBeforeLine
  | .unit _ _ fields (some _) => fields.size = layout.fieldsBeforeLine

theorem Pending.Fresh.awaits {pending : Pending} (fresh : pending.Fresh) (layout : CodeLayout) :
    pending.Awaits layout := by
  cases fresh with
  | sequence kind some => exact Nat.pos_of_ne_zero some
  | dict => trivial
  | unit start counters => exact layout.fieldsBeforeLine_pos

namespace Read

/-- What comes after an item, once its container has it: the value of a container that is
complete, or what is left of it. -/
def afterItem (layout : CodeLayout) (object : ObjectReader) (pending : Pending) (value : Value) :
    Read Value := do
  let (pending, complete) ← accept layout value pending
  if complete then assemble layout pending else remainder layout object pending

/-- The entries of a dict, once the first key was read. -/
def ObjectReader.entriesAfter (object : ObjectReader) : Value → Read (List (Value × Value))
  | .null => pure []
  | key => do
    let value ← object.reader
    let rest ← object.entries
    pure ((key, value) :: rest)

theorem entries_eq (object : ObjectReader) :
    object.entries = object.reader >>= object.entriesAfter := by
  funext state
  rw [ObjectReader.entries, ObjectReader.entriesFrom]
  cases first : object.reader state with
  | error error after => rw [bind_of_error first]
  | ok key middle =>
      rw [bind_of_ok first]
      cases key with
      | null => rfl
      | _ =>
          simp only [ObjectReader.entriesAfter]
          cases second : object.reader middle with
          | error error after => rw [bind_of_error second]
          | ok value after =>
              rw [bind_of_ok second]
              cases third : object.entries after with
              | error error final =>
                  rw [bind_of_error third]
                  rw [ObjectReader.entries] at third
                  simp only [third]
              | ok rest final =>
                  rw [bind_of_ok third]
                  rw [ObjectReader.entries] at third
                  simp only [third]
                  rfl

theorem remainder_sequence_eq (layout : CodeLayout) (object : ObjectReader) (kind : SequenceKind)
    {declared : Nat} {items : Array Value} (short : items.size < declared) :
    remainder layout object (.sequence kind declared items) =
      object.reader >>= afterItem layout object (.sequence kind declared items) := by
  obtain ⟨left, count⟩ : ∃ left, declared - items.size = left + 1 :=
    ⟨declared - items.size - 1, by omega⟩
  simp only [remainder, count, ObjectReader.repeated, bind_assoc, pure_bind]
  congr 1
  funext value
  simp only [afterItem, accept, pure_bind, Array.size_push]
  by_cases complete : items.size + 1 = declared
  · have none : left = 0 := by omega
    simp only [none, complete, ObjectReader.repeated, pure_bind, beq_self_eq_true, if_true,
      assemble, Array.toList_push]
  · have more : declared - (items.size + 1) = left := by omega
    simp only [beq_eq_false_iff_ne.mpr complete, Bool.false_eq_true, if_false, remainder,
      Array.size_push, more, Array.toList_push, List.append_assoc, List.singleton_append]

theorem remainder_dict_eq (layout : CodeLayout) (object : ObjectReader) (key : Option Value)
    (pairs : Array (Value × Value)) :
    remainder layout object (.dict key pairs) =
      object.reader >>= afterItem layout object (.dict key pairs) := by
  cases key with
  | some key =>
      simp only [remainder]
      congr 1
      funext value
      simp only [afterItem, accept, pure_bind, Bool.false_eq_true, if_false, remainder,
        Array.toList_push, List.append_assoc, List.singleton_append]
  | none =>
      rw [remainder, entries_eq, bind_assoc]
      congr 1
      funext value
      cases value with
      | null =>
          simp only [ObjectReader.entriesAfter, afterItem, accept, pure_bind, if_true, assemble,
            List.append_nil]
      | _ =>
          simp only [ObjectReader.entriesAfter, afterItem, accept, pure_bind, bind_assoc,
            Bool.false_eq_true, if_false, remainder]

/-- The fields of a unit before its first line. The first line follows the last of them. -/
theorem remainder_fields_eq (layout : CodeLayout) (object : ObjectReader) (start : Nat)
    (counters : Counters) {fields : Array Value} (short : fields.size < layout.fieldsBeforeLine) :
    remainder layout object (.unit start counters fields none) =
      object.reader >>= afterItem layout object (.unit start counters fields none) := by
  obtain ⟨left, count⟩ : ∃ left, layout.fieldsBeforeLine - fields.size = left + 1 :=
    ⟨layout.fieldsBeforeLine - fields.size - 1, by omega⟩
  simp only [remainder, count, ObjectReader.repeated, bind_assoc, pure_bind]
  congr 1
  funext value
  by_cases lineNext : fields.size + 1 = layout.fieldsBeforeLine
  · have none : left = 0 := by omega
    simp only [afterItem, accept, lineNext, if_true, none, ObjectReader.repeated, pure_bind,
      bind_assoc, Bool.false_eq_true, if_false, remainder, Array.toList_push]
  · have more : layout.fieldsBeforeLine - (fields.size + 1) = left := by omega
    have incomplete : ¬layout.fieldsBeforeLine ≤ fields.size := by omega
    simp only [afterItem, accept, lineNext, if_false, pure_bind, incomplete, decide_false,
      Bool.false_eq_true, remainder, Array.size_push, more, Array.toList_push,
      List.append_assoc, List.cons_append, List.nil_append]

theorem assemble_unit (layout : CodeLayout) (start : Nat) (counters : Counters)
    (fields : Array Value) (firstLine : UInt32) :
    assemble layout (.unit start counters fields (some firstLine)) =
      unitOf layout start counters fields.toList firstLine :=
  rfl

theorem remainder_last_eq (layout : CodeLayout) (object : ObjectReader) (start : Nat)
    (counters : Counters) {fields : Array Value} (firstLine : UInt32)
    (full : fields.size = layout.fieldsBeforeLine) :
    remainder layout object (.unit start counters fields (some firstLine)) =
      object.reader >>= afterItem layout object (.unit start counters fields (some firstLine)) := by
  have past : ¬fields.size + 1 = layout.fieldsBeforeLine := by omega
  have complete : layout.fieldsBeforeLine ≤ fields.size := by omega
  simp only [remainder]
  congr 1
  funext value
  simp only [afterItem, accept, past, if_false, pure_bind, complete, decide_true, if_true,
    assemble_unit, Array.toList_push]

/-- **A container is read item by item.** What is left of it is its next item, and then what is
left after that. -/
theorem remainder_eq (layout : CodeLayout) (object : ObjectReader) {pending : Pending}
    (awaits : pending.Awaits layout) :
    remainder layout object pending = object.reader >>= afterItem layout object pending := by
  cases pending with
  | sequence kind declared items => exact remainder_sequence_eq layout object kind awaits
  | dict key pairs => exact remainder_dict_eq layout object key pairs
  | unit start counters fields firstLine =>
      cases firstLine with
      | none => exact remainder_fields_eq layout object start counters awaits
      | some line => exact remainder_last_eq layout object start counters line awaits

/-- A container that is not complete with an item is short of the next one. -/
theorem awaits_of_accept {layout : CodeLayout} {value : Value} {pending opened : Pending}
    {state after : State} (awaits : pending.Awaits layout)
    (accepted : accept layout value pending state = .ok (opened, false) after) :
    opened.Awaits layout := by
  cases pending with
  | sequence kind declared items =>
      simp only [accept, Pure.pure, EStateM.pure, EStateM.Result.ok.injEq,
        Prod.mk.injEq] at accepted
      rcases accepted with ⟨⟨rfl, incomplete⟩, _⟩
      have short : items.size < declared := awaits
      have different : (items.push value).size ≠ declared := beq_eq_false_iff_ne.mp incomplete
      rw [Array.size_push] at different
      change (items.push value).size < declared
      rw [Array.size_push]
      omega
  | dict key pairs =>
      cases key with
      | some key =>
          cases accepted
          trivial
      | none =>
          cases value <;> cases accepted <;> trivial
  | unit start counters fields firstLine =>
      by_cases lineNext : fields.size + 1 = layout.fieldsBeforeLine
      · simp only [accept, lineNext, if_true] at accepted
        obtain ⟨line, later, _, kept⟩ := bind_eq_ok accepted
        cases kept
        change (fields.push value).size = layout.fieldsBeforeLine
        rw [Array.size_push, lineNext]
      · simp only [accept, lineNext, if_false, Pure.pure, EStateM.pure, EStateM.Result.ok.injEq,
          Prod.mk.injEq, decide_eq_false_iff_not] at accepted
        rcases accepted with ⟨⟨rfl, incomplete⟩, _⟩
        cases firstLine with
        | none =>
            change (fields.push value).size < layout.fieldsBeforeLine
            rw [Array.size_push]
            omega
        | some line =>
            have full : fields.size = layout.fieldsBeforeLine := awaits
            exact absurd (Nat.le_of_eq full.symm) incomplete

/-! ## From the front of a container to its value -/

/-- Comes back with a value, which fills the slot reserved for it. -/
def settled (slot : Option Nat) (value : Value) : Read Value := do
  settle slot value
  pure value

theorem finish_eq (layout : CodeLayout) (frame : Frame) :
    finish layout frame = assemble layout frame.pending >>= settled frame.slot :=
  rfl

/-- What is left of an object after its front. -/
def afterOpening (layout : CodeLayout) (object : ObjectReader) : Value ⊕ Frame → Read Value
  | .inl value => pure value
  | .inr frame => remainder layout object frame.pending >>= settled frame.slot

/-- An object is its front, and what is left of it. -/
theorem objectAbove_eq (layout : CodeLayout) (object : ObjectReader) :
    objectAbove layout object = (do
      let start ← offset
      let first ← byte
      opening layout start first >>= afterOpening layout object) := by
  simp only [objectAbove, opening, bind_assoc]
  congr 1; funext start
  congr 1; funext first
  congr 1; funext slot
  unfold content
  cases Tag.ofByte? (withoutFlag first) with
  | none => rfl
  | some tag =>
      cases tag with
      | scalar tag =>
          simp only [settledScalar, bind_assoc, pure_bind]
          rfl
      | sequence kind form =>
          simp only [bind_assoc]
          congr 1; funext declared
          by_cases empty : declared = 0
          · simp only [empty, if_true, finish, assemble, ObjectReader.repeated, pure_bind,
              bind_assoc]
            rfl
          · simp only [empty, if_false, pure_bind, afterOpening, remainder, bind_assoc,
              Array.size_empty, Nat.sub_zero, List.nil_append]
            rfl
      | dict =>
          simp only [pure_bind, afterOpening, remainder, bind_assoc, List.nil_append]
          rfl
      | unit =>
          simp only [bind_assoc, pure_bind, afterOpening, remainder, Array.size_empty,
            Nat.sub_zero, List.nil_append]
          rfl

/-! ## The two readers agree -/

/-- Hands an object to the frames that await it, and reads on. -/
def resume (layout : CodeLayout) (frames : List Frame) (value : Value) : Read Value :=
  deliver layout value frames >>= goOn layout

theorem resume_cons (layout : CodeLayout) (frame : Frame) (frames : List Frame) (value : Value) :
    resume layout (frame :: frames) value = (do
      let (pending, complete) ← accept layout value frame.pending
      if complete then assemble layout pending >>= settled frame.slot >>= resume layout frames
      else run layout ({ frame with pending } :: frames)) := by
  simp only [resume, deliver, bind_assoc]
  congr 1
  funext ⟨pending, complete⟩
  cases complete with
  | true =>
      simp only [↓reduceIte, finish_eq, bind_assoc]
      rfl
  | false =>
      simp only [Bool.false_eq_true, ↓reduceIte, pure_bind]
      rfl

/-- A container on top of the stack is what is left of it, given that below some level each
reading of the stack begins with an object. -/
theorem run_frame (layout : CodeLayout) (object : ObjectReader) (frames : List Frame)
    (slot : Option Nat)
    (below : ∀ pending, run layout (⟨slot, pending⟩ :: frames) =
      object.reader >>= resume layout (⟨slot, pending⟩ :: frames))
    (state : State) (pending : Pending) (awaits : pending.Awaits layout) :
    run layout (⟨slot, pending⟩ :: frames) state =
      (remainder layout object pending >>= settled slot >>= resume layout frames) state := by
  induction size : state.input.remaining using Nat.strongRecOn generalizing state pending with
  | _ size ih =>
  rw [below, remainder_eq layout object awaits, bind_assoc, bind_assoc]
  cases item : object.reader state with
  | error error after => rw [bind_of_error item, bind_of_error item]
  | ok value middle =>
      rw [bind_of_ok item, bind_of_ok item, resume_cons]
      simp only [afterItem, bind_assoc]
      cases accepted : accept layout value pending middle with
      | error error after => rw [bind_of_error accepted, bind_of_error accepted]
      | ok outcome after =>
          rw [bind_of_ok accepted, bind_of_ok accepted]
          rcases outcome with ⟨opened, complete⟩
          cases complete with
          | true => simp only [↓reduceIte]
          | false =>
              have taken := object.takes state value middle item
              have kept := Takes.of_advances (.accept layout value pending) middle _ after accepted
              have rest := ih after.input.remaining (by omega) after opened
                (awaits_of_accept awaits accepted) rfl
              rw [bind_assoc] at rest
              exact rest

/-- Reading on after a tag is what is left of its object, handed to the open frames. -/
theorem element_goOn_eq (layout : CodeLayout) (object : ObjectReader) (frames : List Frame)
    (opened : ∀ frame : Frame, frame.pending.Awaits layout → run layout (frame :: frames) =
      remainder layout object frame.pending >>= settled frame.slot >>= resume layout frames)
    (start : Nat) (first : UInt8) :
    element layout start first frames >>= goOn layout =
      opening layout start first >>= afterOpening layout object >>= resume layout frames := by
  funext state
  rw [element_eq_opening, bind_assoc, bind_assoc]
  cases read : opening layout start first state with
  | error error after => rw [bind_of_error read, bind_of_error read]
  | ok front after =>
      rw [bind_of_ok read, bind_of_ok read]
      cases front with
      | inl value => rw [afterOpening, pure_bind]; rfl
      | inr frame =>
          obtain ⟨_, _, _, fresh, _⟩ := opening_inr read
          rw [handOn, pure_bind, goOn, opened frame (fresh.awaits layout), afterOpening]

/-- **The stack is a descent.** Reading on with some frames open is reading an object with the
levels that are left, and handing it to the frames. -/
theorem run_eq (layout : CodeLayout) (levels : Nat) (frames : List Frame)
    (height : frames.length + levels = depthLimit) :
    run layout frames = (object layout levels).reader >>= resume layout frames := by
  induction levels generalizing frames with
  | zero =>
      funext state
      rw [run_eq_step, bind_of_error (step_of_full (by omega) state)]
      rfl
  | succ levels ih =>
      have opened : ∀ frame : Frame, frame.pending.Awaits layout → run layout (frame :: frames) =
          remainder layout (object layout levels) frame.pending >>= settled frame.slot >>=
            resume layout frames := by
        intro frame awaits
        funext state
        refine run_frame layout _ frames frame.slot (fun pending => ?_) state frame.pending awaits
        exact ih _ (by rw [List.length_cons]; omega)
      have room : ¬depthLimit ≤ frames.length := by omega
      rw [run_eq_step, step, bind_assoc]
      simp only [room, if_false, bind_assoc]
      change _ = objectAbove layout (object layout levels) >>= resume layout frames
      rw [objectAbove_eq]
      simp only [bind_assoc, element_goOn_eq layout _ frames opened]

theorem run_nil_eq (layout : CodeLayout) : run layout [] = (object layout depthLimit).reader := by
  have deliverNone : resume layout [] = pure := by
    funext value
    rfl
  rw [run_eq layout depthLimit [] (Nat.zero_add _), deliverNone, bind_pure]

end Read

/-- **Reading is recursive descent.** From every state of the reader, whatever the stream, the two
come back with the same value or the same error, and leave the same offset, slots, and interned
strings. -/
theorem read_eq_descend (version : Version) (state : State) :
    read version state = descend version state := by
  rw [read, Read.run_nil_eq, descend]

end PycListing.Marshal
