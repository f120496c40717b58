import PycListing.Proofs.Marshal.Session

/-! # Records and open containers

The records of a session say which objects are still being read, and the frames hold what has been
read of them. Both go together (`PycListing.Marshal.Tracks`): each object that is being read is the
container of a frame, and reading it by descent, from its first byte on, is what is left of that
frame. So every object that is complete has the value that the descent finds at its place, and the
descent fails at the place of every object that was cut (`PycListing.Marshal.Record.Agrees`).
-/

namespace PycListing.Marshal

/-! ## The descent at a depth -/

namespace Read

/-- The reader of objects inside some number of open containers. -/
def objectAt (layout : CodeLayout) (depth : Nat) : ObjectReader :=
  object layout (depthLimit - depth)

theorem objectAt_of_full {layout : CodeLayout} {depth : Nat} (full : depthLimit ≤ depth)
    (state : State) :
    (objectAt layout depth).reader state = .error ⟨state.input.offset, .tooDeep⟩ state := by
  rw [objectAt, Nat.sub_eq_zero_of_le full]
  rfl

theorem objectAt_of_room {layout : CodeLayout} {depth : Nat} (room : depth < depthLimit) :
    (objectAt layout depth).reader = (do
      let start ← offset
      let first ← byte
      opening layout start first >>= afterOpening layout (objectAt layout (depth + 1))) := by
  have levels : depthLimit - depth = depthLimit - (depth + 1) + 1 := by omega
  rw [objectAt, levels]
  exact objectAbove_eq layout _

theorem objectAt_of_nil {layout : CodeLayout} {depth : Nat} {state : State}
    (room : depth < depthLimit) (bytes : state.input.rest = []) :
    (objectAt layout depth).reader state = .error ⟨state.input.offset, .truncated⟩ state := by
  rw [objectAt_of_room room]
  exact bind_of_error (byte_of_nil bytes) _

theorem objectAt_of_cons {layout : CodeLayout} {depth : Nat} {state : State} {first : UInt8}
    {rest : List UInt8} (room : depth < depthLimit) (bytes : state.input.rest = first :: rest) :
    (objectAt layout depth).reader state =
      (opening layout state.input.offset first >>=
        afterOpening layout (objectAt layout (depth + 1)))
          { state with input := state.input.advance 1 } := by
  rw [objectAt_of_room room]
  exact bind_of_ok (byte_of_cons bytes) _

/-- What is left of a container at a depth, given an object that was not yet handed to it. -/
def left (layout : CodeLayout) (depth : Nat) (held : Option Value) (frame : Frame) : Read Value :=
  match held with
  | none => remainder layout (objectAt layout (depth + 1)) frame.pending >>= settled frame.slot
  | some value =>
    afterItem layout (objectAt layout (depth + 1)) frame.pending value >>= settled frame.slot

theorem left_none_of_ok {layout : CodeLayout} {depth : Nat} {frame : Frame} {state final : State}
    {value : Value} (awaits : frame.pending.Awaits layout)
    (found : (objectAt layout (depth + 1)).reader state = .ok value final) :
    left layout depth none frame state = left layout depth (some value) frame final := by
  rw [left, remainder_eq layout _ awaits, bind_assoc, bind_of_ok found]
  rfl

theorem left_none_of_error {layout : CodeLayout} {depth : Nat} {frame : Frame}
    {state final : State} {error : Error} (awaits : frame.pending.Awaits layout)
    (failed : (objectAt layout (depth + 1)).reader state = .error error final) :
    left layout depth none frame state = .error error final := by
  rw [left, remainder_eq layout _ awaits, bind_assoc, bind_of_error failed]

theorem left_some (layout : CodeLayout) (depth : Nat) (value : Value) (frame : Frame) :
    left layout depth (some value) frame =
      (accept layout value frame.pending >>= fun (pending, complete) =>
        (if complete then assemble layout pending
          else remainder layout (objectAt layout (depth + 1)) pending) >>= settled frame.slot) :=
  bind_assoc _ _ _

theorem left_some_of_error {layout : CodeLayout} {depth : Nat} {frame : Frame}
    {state final : State} {value : Value} {error : Error}
    (failed : accept layout value frame.pending state = .error error final) :
    left layout depth (some value) frame state = .error error final := by
  rw [left_some, bind_of_error failed]

theorem left_some_of_open {layout : CodeLayout} {depth : Nat} {frame : Frame}
    {state final : State} {value : Value} {pending : Pending}
    (accepted : accept layout value frame.pending state = .ok (pending, false) final) :
    left layout depth (some value) frame state =
      left layout depth none { frame with pending } final := by
  rw [left_some, bind_of_ok accepted]
  rfl

theorem left_some_of_complete {layout : CodeLayout} {depth : Nat} {frame : Frame}
    {state middle : State} {value : Value} {pending : Pending}
    (accepted : accept layout value frame.pending state = .ok (pending, true) middle) :
    left layout depth (some value) frame state = finish layout { frame with pending } middle := by
  rw [left_some, bind_of_ok accepted]
  rfl

end Read

/-! ## Records -/

namespace Record

/-- The object is what the descent finds at its place. -/
def Agrees (layout : CodeLayout) (record : Record) : Prop :=
  match record.outcome with
  | .reading => True
  | .complete value =>
    ∃ after, (Read.objectAt layout record.around.length).reader record.before = .ok value after
  | .cut error =>
    ∃ after, (Read.objectAt layout record.around.length).reader record.before = .error error after

theorem Agrees.cutBy {layout : CodeLayout} {record : Record} {error : Error} {final : State}
    (agrees : record.Agrees layout)
    (failed : record.isReading = true →
      (Read.objectAt layout record.around.length).reader record.before = .error error final) :
    (record.cutBy error).Agrees layout := by
  unfold Record.cutBy
  split
  · rename_i reading
    exact ⟨final, failed reading⟩
  · exact agrees

@[simp] theorem isReading_complete (record : Record) (value : Value) :
    (record.complete value).isReading = false :=
  rfl

theorem outcome_of_isReading {record : Record} (reading : record.isReading = true) :
    record.outcome = .reading := by
  cases outcome : record.outcome with
  | reading => rfl
  | complete value => simp only [isReading, outcome, Bool.false_eq_true] at reading
  | cut error => simp only [isReading, outcome, Bool.false_eq_true] at reading

theorem value?_of_isReading {record : Record} (reading : record.isReading = true) :
    record.value? = none := by
  rw [value?, outcome_of_isReading reading]

theorem cutBy_of_isReading {record : Record} (reading : record.isReading = true) (error : Error) :
    record.cutBy error = { record with outcome := .cut error } :=
  if_pos reading

theorem cutBy_of_not_isReading {record : Record} (shut : record.isReading = false)
    (error : Error) : record.cutBy error = record :=
  if_neg (by rw [shut]; exact Bool.false_ne_true)

@[simp] theorem isReading_cutBy (record : Record) (error : Error) :
    (record.cutBy error).isReading = false := by
  by_cases reading : record.isReading = true
  · rw [cutBy_of_isReading reading]
    rfl
  · rw [cutBy_of_not_isReading (Bool.eq_false_iff.mpr reading)]
    exact Bool.eq_false_iff.mpr reading

@[simp] theorem first_cutBy (record : Record) (error : Error) :
    (record.cutBy error).first = record.first := by
  unfold cutBy
  split <;> rfl

@[simp] theorem flagged_cutBy (record : Record) (error : Error) :
    (record.cutBy error).flagged = record.flagged := by
  rw [flagged, first_cutBy, flagged]

@[simp] theorem interned_cutBy (record : Record) (error : Error) :
    (record.cutBy error).interned = record.interned := by
  rw [interned, first_cutBy, interned]

/-- An object that was cut has no value, as it had none before. -/
@[simp] theorem value?_cutBy (record : Record) (error : Error) :
    (record.cutBy error).value? = record.value? := by
  by_cases reading : record.isReading = true
  · rw [cutBy_of_isReading reading, value?_of_isReading reading]
    rfl
  · rw [cutBy_of_not_isReading (Bool.eq_false_iff.mpr reading)]

end Record

theorem completeNewest_append {newer older : List Record} {record : Record} (value : Value)
    (shut : ∀ other ∈ newer, other.isReading = false) (reading : record.isReading = true) :
    completeNewest value (newer ++ record :: older) =
      newer ++ record.complete value :: older := by
  induction newer with
  | nil => exact if_pos reading
  | cons other newer ih =>
      have closed : ¬other.isReading = true :=
        Bool.eq_false_iff.mp (shut other List.mem_cons_self)
      rw [List.cons_append, completeNewest, if_neg closed,
        ih fun another member => shut another (List.mem_cons_of_mem _ member)]
      rfl

namespace Record

/-- Where an object was begun: the state of the reader, the first byte and the open containers. -/
def origin (record : Record) : State × UInt8 × List Frame :=
  (record.before, record.first, record.around)

@[simp] theorem origin_cutBy (record : Record) (error : Error) :
    (record.cutBy error).origin = record.origin := by
  unfold cutBy
  split <;> rfl

end Record

theorem map_origin_cutBy (records : List Record) (error : Error) :
    (records.map (Record.cutBy error)).map Record.origin = records.map Record.origin := by
  rw [List.map_map]
  exact List.map_congr_left fun record _ => record.origin_cutBy error

theorem map_origin_completeNewest (value : Value) (records : List Record) :
    (completeNewest value records).map Record.origin = records.map Record.origin := by
  induction records with
  | nil => rfl
  | cons record older ih =>
      by_cases reading : record.isReading = true
      · rw [completeNewest, if_pos reading]
        rfl
      · rw [completeNewest, if_neg reading, List.map_cons, ih, List.map_cons]

/-- The slots that the flagged objects are due, in stream order: their values, and nothing for
those that are not complete. -/
def slotValues (records : List Record) : List (Option Value) :=
  ((records.filter Record.flagged).map Record.value?).reverse

/-- The interned strings that are complete, in stream order. -/
def internedValues (records : List Record) : List Value :=
  ((records.filter Record.interned).filterMap Record.value?).reverse

/-- The slot of an object that comes after some others. -/
def slotAfter (older : List Record) (record : Record) : Option Nat :=
  if record.flagged then some (slotValues older).length else none

theorem slotValues_append (newer older : List Record) :
    slotValues (newer ++ older) = slotValues older ++ slotValues newer := by
  rw [slotValues, List.filter_append, List.map_append, List.reverse_append]
  rfl

theorem slotValues_cons (record : Record) (older : List Record) :
    slotValues (record :: older) =
      slotValues older ++ if record.flagged then [record.value?] else [] := by
  by_cases flagged : record.flagged = true
  · rw [if_pos flagged, slotValues, List.filter_cons_of_pos flagged, List.map_cons,
      List.reverse_cons]
    rfl
  · rw [if_neg flagged, slotValues, List.filter_cons_of_neg flagged, List.append_nil]
    rfl

theorem slotValues_map_cutBy (records : List Record) (error : Error) :
    slotValues (records.map (Record.cutBy error)) = slotValues records := by
  induction records with
  | nil => rfl
  | cons record older ih =>
      rw [List.map_cons, slotValues_cons, slotValues_cons, ih, Record.flagged_cutBy,
        Record.value?_cutBy]

/-- The value of an object that becomes complete fills the object's slot. -/
theorem slotValues_complete {newer older : List Record} {record : Record} (value : Value) :
    slotValues (newer ++ record.complete value :: older) =
      match slotAfter older record with
      | some slot => (slotValues (newer ++ record :: older)).set slot (some value)
      | none => slotValues (newer ++ record :: older) := by
  have same : (record.complete value).flagged = record.flagged := rfl
  rw [slotValues_append, slotValues_append, slotValues_cons, slotValues_cons, same, slotAfter]
  by_cases flagged : record.flagged = true
  · simp only [flagged, if_true, List.append_assoc]
    rw [List.set_append_right _ _ (Nat.le_refl _), Nat.sub_self]
    rfl
  · simp only [flagged, if_false, Bool.false_eq_true]

/-- The slot of an object that is being read is empty. -/
theorem slotValues_slotAfter {newer older : List Record} {record : Record} {slot : Nat}
    (reading : record.isReading = true) (due : slotAfter older record = some slot) :
    (slotValues (newer ++ record :: older))[slot]? = some none := by
  unfold slotAfter at due
  split at due
  · rename_i flagged
    cases due
    rw [slotValues_append, slotValues_cons, if_pos flagged, Record.value?_of_isReading reading,
      List.append_assoc, List.getElem?_append_right (Nat.le_refl _), Nat.sub_self]
    rfl
  · cases due

theorem internedValues_cons (record : Record) (older : List Record) :
    internedValues (record :: older) =
      internedValues older ++ if record.interned then record.value?.toList else [] := by
  by_cases interned : record.interned = true
  · rw [if_pos interned, internedValues, List.filter_cons_of_pos interned]
    cases value : record.value? with
    | none =>
        rw [List.filterMap_cons_none value, Option.toList_none, List.append_nil]
        rfl
    | some found =>
        rw [List.filterMap_cons_some value, List.reverse_cons]
        rfl
  · rw [if_neg interned, internedValues, List.filter_cons_of_neg interned, List.append_nil]
    rfl

theorem internedValues_cons_of_isReading {record : Record} (reading : record.isReading = true)
    (older : List Record) : internedValues (record :: older) = internedValues older := by
  rw [internedValues_cons, Record.value?_of_isReading reading, Option.toList_none, ite_self,
    List.append_nil]

theorem internedValues_map_cutBy (records : List Record) (error : Error) :
    internedValues (records.map (Record.cutBy error)) = internedValues records := by
  induction records with
  | nil => rfl
  | cons record older ih =>
      rw [List.map_cons, internedValues_cons, internedValues_cons, ih, Record.interned_cutBy,
        Record.value?_cutBy]

theorem internedValues_complete {newer older : List Record} {record : Record} (value : Value)
    (other : record.interned = false) :
    internedValues (newer ++ record.complete value :: older) =
      internedValues (newer ++ record :: older) := by
  have same : (record.complete value).interned = record.interned := rfl
  induction newer with
  | nil =>
      rw [List.nil_append, List.nil_append, internedValues_cons, internedValues_cons, same, other]
      rfl
  | cons another newer ih =>
      rw [List.cons_append, List.cons_append, internedValues_cons, internedValues_cons, ih]

/-! ## Objects being read -/

/-- Each object that is being read is the container of one of the open frames, in the same order.
What is left of it is what is left of its frame: for the innermost one where the reader is, and
for each other where the next one inside began. -/
inductive Tracks (layout : CodeLayout) :
    State → Option Value → List Frame → List Record → Prop where
  | nil {here : State} {held : Option Value} : Tracks layout here held [] []
  | past {here : State} {held : Option Value} {frames : List Frame} {record : Record}
      {older : List Record} (shut : record.isReading = false)
      (others : Tracks layout here held frames older) :
      Tracks layout here held frames (record :: older)
  | inside {here : State} {held : Option Value} {frame : Frame} {frames : List Frame}
      {record : Record} {older : List Record} (reading : record.isReading = true)
      (depth : record.around.length = frames.length)
      (container : ∀ tag, Read.announces tag record.first = false)
      (slot : frame.slot = slotAfter older record) (awaits : frame.pending.Awaits layout)
      (same : (Read.objectAt layout frames.length).reader record.before =
        Read.left layout frames.length held frame here)
      (others : Tracks layout record.before none frames older) :
      Tracks layout here held (frame :: frames) (record :: older)

namespace Tracks

variable {layout : CodeLayout} {here final : State} {frames : List Frame} {records : List Record}

theorem shut_of_nil {held : Option Value} (tracks : Tracks layout here held [] records) :
    ∀ record ∈ records, record.isReading = false := by
  induction records with
  | nil =>
      intro record member
      cases member
  | cons record older ih =>
      cases tracks with
      | past shut others => exact List.forall_mem_cons.mpr ⟨shut, ih others⟩

theorem append {held : Option Value} {newer : List Record}
    (shut : ∀ record ∈ newer, record.isReading = false)
    (tracks : Tracks layout here held frames records) :
    Tracks layout here held frames (newer ++ records) := by
  induction newer with
  | nil => exact tracks
  | cons record newer ih =>
      obtain ⟨first, others⟩ := List.forall_mem_cons.mp shut
      exact .past first (ih others)

theorem of_shut (here : State) (held : Option Value)
    (shut : ∀ record ∈ records, record.isReading = false) :
    Tracks layout here held [] records := by
  have none : Tracks layout here held [] [] := .nil
  have tracks := append shut none
  rwa [List.append_nil] at tracks

theorem innermost {held : Option Value} {frame : Frame}
    (tracks : Tracks layout here held (frame :: frames) records) :
    ∃ newer record older, records = newer ++ record :: older ∧
      (∀ other ∈ newer, other.isReading = false) ∧ record.isReading = true ∧
      Tracks layout here held (frame :: frames) (record :: older) := by
  induction records with
  | nil => cases tracks
  | cons record older ih =>
      by_cases reading : record.isReading = true
      · refine ⟨[], record, older, rfl, ?_, reading, tracks⟩
        intro other member
        cases member
      · cases tracks with
        | inside reads => exact absurd reads reading
        | past shut others =>
            obtain ⟨newer, inner, outer, split, past, reads, tracks⟩ := ih others
            refine ⟨record :: newer, inner, outer, ?_, ?_, reads, tracks⟩
            · rw [split]
              rfl
            · exact List.forall_mem_cons.mpr ⟨shut, past⟩

/-- An object that is complete is to be handed to the innermost frame. -/
theorem hold {value : Value} (tracks : Tracks layout here none frames records)
    (found : (Read.objectAt layout frames.length).reader here = .ok value final) :
    Tracks layout final (some value) frames records := by
  induction records with
  | nil =>
      cases tracks
      exact .nil
  | cons record older ih =>
      cases tracks with
      | past shut others => exact .past shut (ih others)
      | inside reading depth container slot awaits same others =>
          refine .inside reading depth container slot awaits ?_ others
          rw [same]
          exact Read.left_none_of_ok awaits found

/-- An object that fails fails every object that is being read. -/
theorem fails {error : Error} (tracks : Tracks layout here none frames records)
    (failed : (Read.objectAt layout frames.length).reader here = .error error final) :
    ∀ record ∈ records, record.isReading = true →
      (Read.objectAt layout record.around.length).reader record.before = .error error final := by
  induction records generalizing here frames with
  | nil =>
      intro record member
      cases member
  | cons record older ih =>
      cases tracks with
      | past shut others =>
          refine List.forall_mem_cons.mpr ⟨?_, ih others failed⟩
          intro reading
          rw [shut] at reading
          cases reading
      | inside reading depth container slot awaits same others =>
          have outer := same.trans (Read.left_none_of_error awaits failed)
          refine List.forall_mem_cons.mpr ⟨?_, ih others outer⟩
          intro _
          rw [depth]
          exact outer

/-- A container that fails over the object handed to it fails every object that is being read. -/
theorem fails_of_held {value : Value} {frame : Frame} {outer : List Frame} {error : Error}
    (tracks : Tracks layout here (some value) (frame :: outer) records)
    (failed : Read.left layout outer.length (some value) frame here = .error error final) :
    ∀ record ∈ records, record.isReading = true →
      (Read.objectAt layout record.around.length).reader record.before = .error error final := by
  induction records with
  | nil =>
      intro record member
      cases member
  | cons record older ih =>
      cases tracks with
      | past shut others =>
          refine List.forall_mem_cons.mpr ⟨?_, ih others⟩
          intro reading
          rw [shut] at reading
          cases reading
      | inside reading depth container slot awaits same others =>
          refine List.forall_mem_cons.mpr ⟨?_, others.fails (same.trans failed)⟩
          intro _
          rw [depth]
          exact same.trans failed

end Tracks

/-- The slots of the objects that are being read, the innermost one first. -/
def openSlots : List Record → List (Option Nat)
  | [] => []
  | record :: older =>
    if record.isReading then slotAfter older record :: openSlots older else openSlots older

theorem Tracks.openSlots_eq {layout : CodeLayout} {here : State} {held : Option Value}
    {frames : List Frame} {records : List Record}
    (tracks : Tracks layout here held frames records) :
    frames.map Frame.slot = openSlots records := by
  induction tracks with
  | nil => rfl
  | past shut others ih =>
      rw [openSlots, if_neg (Bool.eq_false_iff.mp shut), ih]
  | inside reading depth container slot awaits same others ih =>
      rw [openSlots, if_pos reading, List.map_cons, slot, ih]

/-! ## Tables that grow -/

/-- Slots after some more reading: none is gone, and none that was filled has changed. -/
structure Filled (earlier later : List (Option Value)) : Prop where
  length : earlier.length ≤ later.length
  kept : ∀ (slot : Nat) (value : Value),
    earlier[slot]? = some (some value) → later[slot]? = some (some value)

namespace Filled

theorem refl (slots : List (Option Value)) : Filled slots slots :=
  ⟨Nat.le_refl _, fun _ _ filled => filled⟩

theorem trans {first second third : List (Option Value)} (before : Filled first second)
    (after : Filled second third) : Filled first third :=
  ⟨Nat.le_trans before.length after.length, fun slot value filled =>
    after.kept slot value (before.kept slot value filled)⟩

theorem append (slots more : List (Option Value)) : Filled slots (slots ++ more) := by
  constructor
  · rw [List.length_append]
    exact Nat.le_add_right _ _
  · intro slot value filled
    obtain ⟨inside, _⟩ := List.getElem?_eq_some_iff.mp filled
    rw [List.getElem?_append_left inside, filled]

theorem set {slots : List (Option Value)} {slot : Nat} (empty : slots[slot]? = some none)
    (value : Value) : Filled slots (slots.set slot (some value)) := by
  constructor
  · exact Nat.le_of_eq List.length_set.symm
  · intro other found filled
    have different : slot ≠ other := by
      intro same
      rw [same, filled] at empty
      cases empty
    rw [List.getElem?_set_ne different, filled]

end Filled

end PycListing.Marshal
