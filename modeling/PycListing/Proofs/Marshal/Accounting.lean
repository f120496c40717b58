import PycListing.Proofs.Marshal.Countdown
import PycListing.Proofs.Marshal.Diagnosis
import PycListing.Proofs.Marshal.Encoding

/-! # Containers are accounted for

In every state of a reader that counts down, the open containers hold what their objects declare,
less what they await (`PycListing.Marshal.Countdown.Frame.Accounted`), and those that are complete
hold all of it (`PycListing.Marshal.Countdown.Frame.Finished`). So the count never falls below zero,
a unit is never complete without all of its fields, and the reader goes through the states of a
session (`PycListing.Marshal.Countdown.after_accounted`).
-/

namespace PycListing.Marshal

/-! ## Declared items -/

/-- The object that starts at `start` is a sequence that declares a number of items. -/
inductive DeclaresItems (stream : List UInt8) (start : Nat) : SequenceKind → Nat → Prop where
  | wide {kind : SequenceKind} {count : Nat} (tag : letterAt? stream start = some kind.letter)
      (declared : signedAt? stream (start + 1) 4 = some (count : Int)) :
      DeclaresItems stream start kind count
  | short {count : UInt8} (tag : letterAt? stream start = some ')')
      (declared : stream[start + 1]? = some count) :
      DeclaresItems stream start .tuple count.toNat

theorem letter_of_sequence {byte : UInt8} {kind : SequenceKind} {form : LengthForm}
    (known : Tag.ofByte? byte = some (.sequence kind form)) :
    form = .wide ∧ Char.ofNat byte.toNat = kind.letter ∨
      form = .short ∧ kind = .tuple ∧ Char.ofNat byte.toNat = ')' := by
  unfold Tag.ofByte? at known
  split at known <;> cases known <;> rename_i same <;> rw [same] <;> decide

/-- The number of items is read from where the object declares it. -/
theorem DeclaresItems.of_lengthOf {stream : List UInt8} {start count : Nat} {byte : UInt8}
    {kind : SequenceKind} {form : LengthForm} {state after : State}
    (known : Tag.ofByte? byte = some (.sequence kind form))
    (tag : letterAt? stream start = some (Char.ofNat byte.toNat))
    (inside : start + 1 ≤ stream.length) (here : state.input = placeIn stream (start + 1))
    (read : Read.lengthOf form state = .ok count after) :
    DeclaresItems stream start kind count := by
  rcases letter_of_sequence known with ⟨rfl, letter⟩ | ⟨rfl, rfl, letter⟩
  · have length : Read.Explains stream [start] 0 (start + 1) Read.length _ :=
      .length (List.mem_singleton_self start)
    obtain ⟨_, _, _, _, declared, _⟩ := length.of_ok (Nat.zero_le _) inside here read
    exact .wide (letter ▸ tag) declared
  · have byte : Read.Explains stream [] 0 (start + 1) (Read.lengthOf .short)
        fun count _ => ∃ stored, stream[start + 1]? = some stored ∧ stored.toNat = count :=
      .map (Read.Explains.byte.mono fun stored _ read => ⟨stored, read.1, rfl⟩)
    obtain ⟨_, _, _, _, stored, declared, rfl⟩ := byte.of_ok (Nat.zero_le _) inside here read
    exact .short (letter ▸ tag) declared

namespace Countdown

/-! ## Accounts -/

/-- What an open container holds and awaits is what its object declares. The first line of a unit
was read if and only if all fields before it were. -/
def Frame.Accounted (layout : CodeLayout) (stream : List UInt8) (frame : Frame) : Prop :=
  match frame.pending with
  | .sequence kind left items =>
    1 ≤ left ∧ DeclaresItems stream frame.start kind (items.size + left)
  | .dict _ _ => letterAt? stream frame.start = some '\x7b'
  | .unit start _ fields firstLine =>
    letterAt? stream frame.start = some 'c' ∧ start = frame.start ∧
      fields.size ≤ layout.fieldsBeforeLine ∧
      (firstLine.isSome = true ↔ fields.size = layout.fieldsBeforeLine)

/-- A container that is complete holds what its object declares, or all fields of a unit. -/
def Frame.Finished (fieldCount : Nat) (stream : List UInt8) (frame : Frame) : Prop :=
  match frame.pending with
  | .sequence kind left items => left = 0 ∧ DeclaresItems stream frame.start kind items.size
  | .dict key _ => letterAt? stream frame.start = some '\x7b' ∧ key = none
  | .unit start _ fields firstLine =>
    letterAt? stream frame.start = some 'c' ∧ start = frame.start ∧
      fields.size = fieldCount ∧ firstLine.isSome = true

variable {layout : CodeLayout} {stream : List UInt8} {first : UInt8} {value : Value}
  {state final : State} {error : Error} {frame : Frame}

/-! ## What follows a first byte -/

/-- A container that a first byte opens holds nothing yet. -/
theorem accounted_of_front {start : Nat} (stands : stream[start]? = some first)
    (here : state.input = placeIn stream (start + 1))
    (found : front layout start first state = .ok (.inr frame) final) :
    frame.start = start ∧
      if frame.pending.isDone then frame.Finished (layout.fieldsBeforeLine + 1) stream
      else frame.Accounted layout stream := by
  have tag := letterAt?_of_first stands
  obtain ⟨inside, _⟩ := List.getElem?_eq_some_iff.mp stands
  unfold front at found
  rw [Read.bind_of_ok (Read.reserveFor_eq first state)] at found
  cases known : Tag.ofByte? (withoutFlag first) with
  | none =>
      rw [known] at found
      cases found
  | some announced =>
      rw [known] at found
      have named := mem_letters_of_ofByte? known
      cases announced with
      | scalar =>
          obtain ⟨_, _, _, same⟩ := Read.bind_eq_ok found
          cases same
      | sequence kind form =>
          obtain ⟨left, _, read, same⟩ := Read.bind_eq_ok found
          cases same
          have reserved : ({ state with slots := Read.slotted first none state.slots } :
              State).input = placeIn stream (start + 1) := here
          have declares := DeclaresItems.of_lengthOf known tag inside reserved read
          refine ⟨rfl, ?_⟩
          cases left with
          | zero => exact ⟨rfl, declares⟩
          | succ left =>
              refine ⟨Nat.succ_pos left, ?_⟩
              rwa [Array.size_empty, Nat.zero_add]
      | dict =>
          cases found
          exact ⟨rfl, tag.trans (congrArg some (List.mem_singleton.mp named))⟩
      | unit =>
          obtain ⟨counters, _, _, same⟩ := Read.bind_eq_ok found
          cases same
          have positive := layout.fieldsBeforeLine_pos
          have unit := tag.trans (congrArg some (List.mem_singleton.mp named))
          refine ⟨rfl, unit, rfl, Nat.zero_le _, ?_⟩
          simp only [Option.isSome_none, Bool.false_eq_true, Array.size_empty, false_iff]
          omega

/-- What follows a first byte is not found to be short of fields. -/
theorem cause_of_front {start : Nat} (stands : stream[start]? = some first)
    (here : state.input = placeIn stream (start + 1))
    (failed : front layout start first state = .error error final) :
    error.cause ≠ .malformed .incompleteUnit := by
  intro incomplete
  obtain ⟨inside, _⟩ := List.getElem?_eq_some_iff.mp stands
  have opening : Read.opening layout start first state = .error error final := by
    rw [opening_eq_front, Read.bind_of_error failed]
  have explains : Read.Explains stream [start] 0 (start + 1) (Read.opening layout start first) _ :=
    .opening (Nat.zero_le _) (List.mem_singleton_self start) stands layout
  obtain ⟨⟨_, _, holds⟩, _⟩ := explains.of_error (Nat.zero_le _) inside here opening
  rw [incomplete] at holds
  obtain ⟨member, unit⟩ := holds
  rw [List.mem_singleton.mp member, letterAt?_of_first stands, Option.some.injEq] at unit
  have known : Tag.ofByte? (withoutFlag first) = some .unit := by
    rw [Tag.ofByte?, unit]
    rfl
  unfold front at failed
  rw [Read.bind_of_ok (Read.reserveFor_eq first state), known] at failed
  -- Only the counters of a unit can be missing, and no object is to blame for that.
  rcases Read.bind_eq_error failed with short | ⟨_, _, _, same⟩
  · have counters : Read.Explains stream [] 0 (start + 1) (Read.counters layout) _ :=
      .counters layout
    have reserved : ({ state with slots := Read.slotted first none state.slots } : State).input =
        placeIn stream (start + 1) := here
    obtain ⟨⟨_, _, none⟩, _⟩ := counters.of_error (Nat.zero_le _) inside reserved short
    rw [incomplete] at none
    cases none.1
  · cases same

/-! ## Handing over -/

/-- What an open container does with an object: it comes to the same as without counting down, and
stays accounted for until it is complete. -/
structure Accepts (layout : CodeLayout) (stream : List UInt8) (value : Value) (frame : Frame)
    (accepting : Read (Pending × Bool)) : Prop where
  passed : accept layout value frame.pending = .ok accepting
  plain : Read.accept layout value frame.pending.plain =
    (fun (pending, complete) => (pending.plain, complete)) <$> accepting
  accounted : ∀ state pending after, accepting state = .ok (pending, false) after →
    ({ frame with pending } : Frame).Accounted layout stream
  finished : ∀ state pending after, accepting state = .ok (pending, true) after →
    ({ frame with pending } : Frame).Finished (layout.fieldsBeforeLine + 1) stream

theorem eq_of_pure_eq_ok {accepted pending : Pending} {done complete : Bool}
    (same : (pure (accepted, done) : Read (Pending × Bool)) state = .ok (pending, complete) final) :
    accepted = pending ∧ done = complete := by
  cases same
  exact ⟨rfl, rfl⟩

theorem accepts_sequence {start left : Nat} {slot : Option Nat} {kind : SequenceKind}
    {items : Array Value}
    (accounted : Frame.Accounted layout stream ⟨start, slot, .sequence kind left items⟩) :
    ∃ accepting, Accepts layout stream value ⟨start, slot, .sequence kind left items⟩
      accepting := by
  obtain ⟨some, declares⟩ := accounted
  have counted : (items.push value).size + (left - 1) = items.size + left := by
    rw [Array.size_push]
    omega
  refine ⟨pure (.sequence kind (left - 1) (items.push value), left - 1 == 0),
    ?passed, ?plain, ?accounted, ?finished⟩
  case passed =>
    simp only [accept, Checked.sub_eq some]
    rfl
  case plain =>
    have same : ((items.push value).size == items.size + left) = (left - 1 == 0) := by
      rw [Bool.eq_iff_iff, beq_iff_eq, beq_iff_eq]
      omega
    simp only [Pending.plain, Read.accept, map_pure, counted, same]
  case accounted =>
    intro state pending after accepted
    obtain ⟨rfl, more⟩ := eq_of_pure_eq_ok accepted
    refine ⟨Nat.pos_of_ne_zero (beq_eq_false_iff_ne.mp more), ?_⟩
    rwa [counted]
  case finished =>
    intro state pending after accepted
    obtain ⟨rfl, none⟩ := eq_of_pure_eq_ok accepted
    have full : left - 1 = 0 := beq_iff_eq.mp none
    refine ⟨full, ?_⟩
    rwa [← counted, full] at declares

theorem accepts_dict {start : Nat} {slot : Option Nat} {key : Option Value}
    {pairs : Array (Value × Value)}
    (accounted : Frame.Accounted layout stream ⟨start, slot, .dict key pairs⟩) :
    ∃ accepting, Accepts layout stream value ⟨start, slot, .dict key pairs⟩ accepting := by
  cases key with
  | some key =>
      refine ⟨_, rfl, rfl, ?_, nofun⟩
      rintro _ _ _ ⟨⟩
      exact accounted
  | none =>
      cases value with
      | null =>
          refine ⟨_, rfl, rfl, nofun, ?_⟩
          rintro _ _ _ ⟨⟩
          exact ⟨accounted, rfl⟩
      | _ =>
          refine ⟨_, rfl, rfl, ?_, nofun⟩
          rintro _ _ _ ⟨⟩
          exact accounted

/-- The field before the first line is followed by it, and the field behind it is the last one. -/
theorem accepts_unit {start place : Nat} {slot : Option Nat} {counters : Counters}
    {fields : Array Value} {firstLine : Option UInt32}
    (accounted :
      Frame.Accounted layout stream ⟨start, slot, .unit place counters fields firstLine⟩) :
    ∃ accepting, Accepts layout stream value ⟨start, slot, .unit place counters fields firstLine⟩
      accepting := by
  obtain ⟨letter, placed, few, lineRead⟩ := accounted
  have grown : (fields.push value).size = fields.size + 1 := Array.size_push ..
  by_cases lineNext : fields.size + 1 = layout.fieldsBeforeLine
  · refine ⟨do
      let line ← Read.counter layout
      pure (.unit place counters (fields.push value) (some line), false),
      ?passed, ?plain, ?accounted, ?finished⟩
    case passed =>
      simp only [accept, grown, lineNext, if_true, lt_irrefl, decide_false, bind_map_left]
      rfl
    case plain =>
      simp only [Pending.plain, Read.accept, lineNext, if_true, map_bind, map_pure]
    case accounted =>
      intro state pending after accepted
      obtain ⟨line, _, _, same⟩ := Read.bind_eq_ok accepted
      obtain ⟨rfl, _⟩ := eq_of_pure_eq_ok same
      have full : (fields.push value).size = layout.fieldsBeforeLine := grown.trans lineNext
      exact ⟨letter, placed, Nat.le_of_eq full, iff_of_true rfl full⟩
    case finished =>
      intro state pending after accepted
      obtain ⟨_, _, _, same⟩ := Read.bind_eq_ok accepted
      cases same
  · refine ⟨pure (.unit place counters (fields.push value) firstLine,
      decide (layout.fieldsBeforeLine ≤ fields.size)), ?passed, ?plain, ?accounted, ?finished⟩
    case passed =>
      simp only [accept, grown, lineNext, if_false, pure_bind, Nat.lt_add_one_iff]
      rfl
    case plain => simp only [Pending.plain, Read.accept, lineNext, if_false, map_pure]
    case accounted =>
      intro state pending after accepted
      obtain ⟨rfl, more⟩ := eq_of_pure_eq_ok accepted
      have below : fields.size < layout.fieldsBeforeLine :=
        Nat.lt_of_not_le (of_decide_eq_false more)
      refine ⟨letter, placed, by omega, ?_⟩
      rw [lineRead]
      omega
    case finished =>
      intro state pending after accepted
      obtain ⟨rfl, none⟩ := eq_of_pure_eq_ok accepted
      have full : fields.size = layout.fieldsBeforeLine :=
        Nat.le_antisymm few (of_decide_eq_true none)
      exact ⟨letter, placed, by rw [grown, full], lineRead.mpr full⟩

/-- An open container that is accounted for accepts an object without a fault. -/
theorem Frame.Accounted.accepts (accounted : frame.Accounted layout stream) (value : Value) :
    ∃ accepting, Accepts layout stream value frame accepting := by
  obtain ⟨start, slot, pending⟩ := frame
  cases pending with
  | sequence kind left items => exact accepts_sequence accounted
  | dict key pairs => exact accepts_dict accounted
  | unit place counters fields firstLine => exact accepts_unit accounted

/-! ## Complete containers -/

/-- As many fields as a layout has are fields of a unit. -/
theorem exists_fields (layout : CodeLayout) {values : List Value}
    (full : values.length = layout.fieldsBeforeLine + 1) :
    ∃ fields, Fields.ofList? layout values = some fields := by
  unfold CodeLayout.fieldsBeforeLine at full
  unfold Fields.ofList?
  cases closures : layout.hasClosures with
  | true =>
      rw [closures] at full
      match values, full with
      | [_, _, _, _, _, _, _, _, _], _ => exact ⟨_, rfl⟩
  | false =>
      rw [closures] at full
      match values, full with
      | [_, _, _, _, _, _, _], _ => exact ⟨_, rfl⟩

theorem cause_of_finish (finished : frame.Finished (layout.fieldsBeforeLine + 1) stream)
    (failed : Read.finish layout frame.plain state = .error error final) :
    error.cause ≠ .malformed .incompleteUnit := by
  obtain ⟨assembling, _⟩ := Read.finish_error failed
  obtain ⟨start, slot, pending⟩ := frame
  cases pending with
  | sequence kind left items => cases assembling
  | dict key pairs => cases assembling
  | unit place counters fields firstLine =>
      obtain ⟨_, _, full, _⟩ := finished
      have length : fields.toList.length = layout.fieldsBeforeLine + 1 := full
      obtain ⟨listed, found⟩ := exists_fields layout length
      simp only [Frame.plain, Pending.plain, Read.assemble, found] at assembling
      cases made : listed.toUnit layout.era counters (firstLine.getD 0) with
      | ok unit =>
          rw [made] at assembling
          cases assembling
      | error defect =>
          obtain ⟨field, found, rfl⟩ := FaultsInType.toUnit _ _ _ _ defect made
          rw [made] at assembling
          cases assembling
          intro same
          cases same

/-! ## Steps -/

/-- A reader that counts down is where a session is, and its containers are those of the objects
that the session is reading. -/
structure Follows (reader : Countdown) (session : Session) : Prop where
  state : reader.state = session.state
  frames : reader.frames.map Frame.plain = session.frames
  starts : reader.frames.map Frame.start =
    (session.records.filter Record.isReading).map Record.offset
  held : reader.held = session.held
  results : reader.results = session.results

/-- All containers of a reader are accounted for, those that are complete hold all of their items,
and the reader never lacked a field of a unit that it took for complete. -/
structure Accounted (layout : CodeLayout) (stream : List UInt8) (reader : Countdown) : Prop where
  frames : ∀ frame ∈ reader.frames, frame.Accounted layout stream
  few : reader.frames.length ≤ depthLimit
  finished : ∀ frame ∈ reader.finished, frame.Finished (layout.fieldsBeforeLine + 1) stream
  complete : ∀ error, .error error ∈ reader.results → error.cause ≠ .malformed .incompleteUnit

variable {reader : Countdown} {session : Session} {outer : List Frame}

theorem follows_fails (results : reader.results = session.results) (error : Error)
    (after : State) : (reader.fails error after).Follows (session.fails error after) := by
  refine ⟨rfl, rfl, ?_, rfl, congrArg (List.cons _) results⟩
  exact (congrArg (List.map Record.offset) (filter_isReading_map_cutBy error _)).symm

theorem Accounted.fails (accounted : reader.Accounted layout stream)
    (other : error.cause ≠ .malformed .incompleteUnit) (after : State) :
    (reader.fails error after).Accounted layout stream := by
  refine ⟨List.forall_mem_nil _, Nat.zero_le _, accounted.finished, fun reported member => ?_⟩
  rcases List.mem_cons.mp member with same | earlier
  · cases same
    exact other
  · exact accounted.complete reported earlier

/-- A container that is complete becomes the object that the session was reading. -/
theorem follows_closes (results : reader.results = session.results)
    (starts : (frame :: outer).map Frame.start =
      (session.records.filter Record.isReading).map Record.offset) (layout : CodeLayout)
    (state : State) : (reader.closes layout frame outer state).Follows
      (match Read.finish layout frame.plain state with
        | .error error final => session.fails error final
        | .ok value final => session.completes value (outer.map Frame.plain) final) := by
  unfold Countdown.closes
  cases Read.finish layout frame.plain state with
  | error error final =>
      have noted : ({ reader with finished := frame :: reader.finished } : Countdown).results =
          session.results := results
      exact follows_fails noted error final
  | ok value final =>
      refine ⟨rfl, rfl, ?_, rfl, results⟩
      change outer.map Frame.start =
        ((completeNewest value session.records).filter Record.isReading).map Record.offset
      rw [filter_isReading_completeNewest, List.map_tail, ← starts]
      rfl

theorem Accounted.closes (accounted : reader.Accounted layout stream)
    (finished : frame.Finished (layout.fieldsBeforeLine + 1) stream)
    (outerAccounted : ∀ frame ∈ outer, frame.Accounted layout stream)
    (few : outer.length ≤ depthLimit) (state : State) :
    (reader.closes layout frame outer state).Accounted layout stream := by
  have noted : ({ reader with finished := frame :: reader.finished } : Countdown).Accounted layout
      stream :=
    ⟨accounted.frames, accounted.few, List.forall_mem_cons.mpr ⟨finished, accounted.finished⟩,
      accounted.complete⟩
  unfold Countdown.closes
  cases closed : Read.finish layout frame.plain state with
  | error error final => exact noted.fails (cause_of_finish finished closed) final
  | ok value final => exact ⟨outerAccounted, few, noted.finished, noted.complete⟩

/-- Only the first line of a unit can be missing when a container accepts an object. -/
theorem cause_of_accept {pending : Marshal.Pending}
    (failed : Read.accept layout value pending state = .error error final) :
    error.cause = .truncated := by
  cases pending with
  | sequence => cases failed
  | dict key pairs => cases key <;> cases value <;> cases failed
  | unit start counters fields firstLine =>
      by_cases lineNext : fields.size + 1 = layout.fieldsBeforeLine
      · simp only [Read.accept, lineNext, if_true] at failed
        rcases Read.bind_eq_error failed with counter | ⟨_, _, _, same⟩
        · rcases Nat.lt_or_ge state.input.remaining layout.counterWidth with short | enough
          · rw [Read.counter, Read.map_of_error (Read.number_of_short short)] at counter
            cases counter
            rfl
          · rw [Read.counter, Read.map_of_ok (Read.number_of_enough enough)] at counter
            cases counter
        · cases same
      · simp only [Read.accept, lineNext, if_false] at failed
        cases failed

theorem tooDeep_ne_incomplete : Cause.tooDeep ≠ .malformed .incompleteUnit :=
  nofun

theorem truncated_ne_incomplete : Cause.truncated ≠ .malformed .incompleteUnit :=
  nofun

/-- A container that a first byte opens stays open, unless it awaits nothing. -/
theorem front_step (follows : reader.Follows session) (accounted : reader.Accounted layout stream)
    (room : reader.frames.length < depthLimit)
    (stands : stream[session.state.input.offset]? = some first)
    (here : state.input = placeIn stream (session.state.input.offset + 1))
    (found : front layout session.state.input.offset first state = .ok (.inr frame) final) :
    (if frame.pending.isDone then reader.closes layout frame reader.frames final
      else { reader with state := final, frames := frame :: reader.frames }).Follows
        (match closeFront layout (.inr frame) final with
          | .error error last => (session.noting first).fails error last
          | .ok (.inl value) last => (session.noting first).completes value session.frames last
          | .ok (.inr opened) last => (session.noting first).opens opened last) ∧
      (if frame.pending.isDone then reader.closes layout frame reader.frames final
        else { reader with state := final, frames := frame :: reader.frames }).Accounted
          layout stream := by
  obtain ⟨start, begun⟩ := accounted_of_front stands here found
  have results : reader.results = (session.noting first).results := follows.results
  have starts : (frame :: reader.frames).map Frame.start =
      ((session.noting first).records.filter Record.isReading).map Record.offset :=
    congrArg₂ List.cons start follows.starts
  by_cases done : frame.pending.isDone = true
  · rw [if_pos done] at begun
    rw [if_pos done, closeFront, if_pos done]
    refine ⟨?_, accounted.closes begun accounted.frames accounted.few final⟩
    have closing := follows_closes results starts layout final
    rw [follows.frames] at closing
    cases closed : Read.finish layout frame.plain final with
    | error error last =>
        rw [closed] at closing
        rw [Read.bind_of_error closed]
        exact closing
    | ok value last =>
        rw [closed] at closing
        rw [Read.bind_of_ok closed]
        exact closing
  · rw [if_neg done] at begun
    rw [if_neg done, closeFront, if_neg done]
    exact ⟨⟨rfl, congrArg (List.cons _) follows.frames, starts, follows.held, follows.results⟩,
      List.forall_mem_cons.mpr ⟨begun, accounted.frames⟩, room, accounted.finished,
      accounted.complete⟩

theorem takeTag_step (follows : reader.Follows session) (accounted : reader.Accounted layout stream)
    (placed : session.Placed stream) :
    (reader.takeTag layout).Follows (session.takeTag layout) ∧
      (reader.takeTag layout).Accounted layout stream := by
  have height : reader.frames.length = session.frames.length := by
    rw [← follows.frames, List.length_map]
  unfold Countdown.takeTag Session.takeTag
  rw [height, follows.state]
  by_cases full : depthLimit ≤ session.frames.length
  · rw [if_pos full, if_pos full]
    exact ⟨follows_fails follows.results _ _, accounted.fails tooDeep_ne_incomplete _⟩
  rw [if_neg full, if_neg full]
  cases bytes : session.state.input.rest with
  | nil =>
      rw [Read.byte_of_nil bytes]
      exact ⟨follows_fails follows.results _ _, accounted.fails truncated_ne_incomplete _⟩
  | cons first rest =>
      rw [Read.byte_of_cons bytes]
      dsimp only
      have stands := placed.first_of_cons bytes
      rw [opening_eq_front]
      cases read : front layout session.state.input.offset first
          { session.state with input := session.state.input.advance 1 } with
      | error error final =>
          have results : reader.results = (session.noting first).results := follows.results
          rw [Read.bind_of_error read]
          exact ⟨follows_fails results _ _,
            accounted.fails (cause_of_front stands placed.behind read) _⟩
      | ok found final =>
          rw [Read.bind_of_ok read]
          cases found with
          | inl value =>
              refine ⟨⟨rfl, follows.frames, ?_, rfl, follows.results⟩,
                accounted.frames, accounted.few, accounted.finished, accounted.complete⟩
              change _ = ((completeNewest value _).filter Record.isReading).map Record.offset
              rw [filter_isReading_completeNewest]
              exact follows.starts
          | inr frame =>
              have room : reader.frames.length < depthLimit := by omega
              exact front_step follows accounted room stands placed.behind read

theorem handOver_step (follows : reader.Follows session)
    (accounted : reader.Accounted layout stream) (inner : reader.frames = frame :: outer)
    (value : Value) :
    ∃ later, reader.handOver layout value frame outer = .ok later ∧
      later.Follows (session.handOver layout value frame.plain (outer.map Frame.plain)) ∧
      later.Accounted layout stream := by
  have all := accounted.frames
  have few := accounted.few
  have starts := follows.starts
  rw [inner] at all few starts
  obtain ⟨innermost, others⟩ := List.forall_mem_cons.mp all
  obtain ⟨accepting, accepts⟩ := innermost.accepts value
  unfold Countdown.handOver Session.handOver
  rw [accepts.passed, Checked.bind_ok, Frame.plain, accepts.plain, follows.state]
  dsimp only
  cases accepted : accepting session.state with
  | error error after =>
      have truncated := cause_of_accept (congrFun accepts.plain session.state |>.trans
        (Read.map_of_error accepted _))
      rw [Read.map_of_error accepted]
      refine ⟨_, rfl, follows_fails follows.results error after, accounted.fails ?_ after⟩
      rw [truncated]
      exact truncated_ne_incomplete
  | ok outcome after =>
      rw [Read.map_of_ok accepted]
      obtain ⟨pending, complete⟩ := outcome
      cases complete with
      | false =>
          refine ⟨_, rfl, ⟨rfl, rfl, starts, rfl, follows.results⟩, ?_, few, accounted.finished,
            accounted.complete⟩
          exact List.forall_mem_cons.mpr ⟨accepts.accounted _ _ _ accepted, others⟩
      | true =>
          have closing : (({ frame with pending } : Frame) :: outer).map Frame.start = _ := starts
          exact ⟨_, rfl, follows_closes follows.results closing layout after,
            accounted.closes (accepts.finished _ _ _ accepted) others (Nat.le_of_succ_le few) after⟩

/-- **A step of a reader that counts down.** It comes to no fault, and to where the next step of
the session is; what was accounted for still is. -/
theorem Accounted.next (accounted : reader.Accounted layout stream)
    (follows : reader.Follows session) (placed : session.Placed stream) :
    ∃ later, reader.next layout = .ok later ∧ later.Follows (session.next layout) ∧
      later.Accounted layout stream := by
  unfold Countdown.next Session.next
  rw [follows.held, ← follows.frames]
  cases held : session.held with
  | none =>
      obtain ⟨onward, kept⟩ := takeTag_step follows accounted placed
      exact ⟨_, rfl, onward, kept⟩
  | some value =>
      cases inner : reader.frames with
      | nil =>
          have frames := follows.frames
          have starts := follows.starts
          rw [inner] at frames starts
          refine ⟨_, rfl, ⟨follows.state, frames, starts, rfl,
            congrArg (List.cons _) follows.results⟩, List.forall_mem_nil _, Nat.zero_le _,
            accounted.finished, fun error member => ?_⟩
          rcases List.mem_cons.mp member with same | earlier
          · cases same
          · exact accounted.complete error earlier
      | cons frame outer => exact handOver_step follows accounted inner value

/-- In every state of a reader that counts down, all containers are accounted for. -/
theorem exists_after (version : Version) (stream : List UInt8) (steps : Nat) :
    ∃ reader, after version stream steps = .ok reader ∧
      reader.Follows (Session.after version stream steps) ∧
      reader.Accounted (.ofVersion version) stream := by
  induction steps with
  | zero =>
      exact ⟨_, rfl, ⟨rfl, rfl, rfl, rfl, rfl⟩, List.forall_mem_nil _, Nat.zero_le _,
        List.forall_mem_nil _, nofun⟩
  | succ steps ih =>
      obtain ⟨reader, reached, follows, accounted⟩ := ih
      obtain ⟨_, _, _, placed⟩ := Session.invariants version stream steps
      obtain ⟨later, onward, followed, kept⟩ := accounted.next follows placed
      refine ⟨later, ?_, ?_, kept⟩
      · rw [after, reached, Checked.bind_ok, onward]
      · rw [Session.after, Function.iterate_succ_apply']
        exact followed

/-! ## Versions -/

/-- Units have seven fields before version 2.1, and nine from then on. -/
theorem fieldCount_ofVersion (version : Version) :
    (CodeLayout.ofVersion version).fieldsBeforeLine + 1 = if version.atLeast 2 1 then 9 else 7 := by
  have earlier {major minor : UInt8} (later : version.atLeast major minor = true)
      (above : 2 < major ∨ major = 2 ∧ 1 ≤ minor) : version.atLeast 2 1 = true := by
    simp only [Version.atLeast, GT.gt, GE.ge, UInt8.lt_iff_toNat_lt, UInt8.le_iff_toNat_le,
      Bool.or_eq_true, Bool.and_eq_true, decide_eq_true_eq, beq_iff_eq, ← UInt8.toNat_inj,
      UInt8.reduceToNat] at later above ⊢
    omega
  unfold CodeLayout.ofVersion
  by_cases modern : version.atLeast 3 0 = true
  · rw [if_pos modern, if_pos (earlier modern (by decide))]
    rfl
  · rw [if_neg modern]
    by_cases long : version.atLeast 2 3 = true
    · rw [if_pos long, if_pos (earlier long (by decide))]
      rfl
    · rw [if_neg long]
      cases version.atLeast 2 1 <;> rfl

/-- **Frames are accounted for.** A reader that counts down comes to no fault, whatever the version
and the stream: it is where a session is after each of its steps, and so comes back with what the
calls come back with. Then each open container holds what its object declares less what it awaits,
which is never nothing, or no more fields than precede the first line of a unit; no more than 500
of them are open; and those that were complete held exactly what they declare, or all fields of a
unit. No unit is ever found to be incomplete. -/
theorem after_accounted (version : Version) (stream : List UInt8) :
    (∀ count, ∃ steps reader, after version stream steps = .ok reader ∧
      reader.frames = [] ∧ reader.held = none ∧
      (reader.results, reader.state) = calls version count (State.start stream)) ∧
    (∀ steps, ∃ reader, after version stream steps = .ok reader ∧
      reader.Follows (Session.after version stream steps) ∧
      (∀ frame ∈ reader.frames, frame.Accounted (.ofVersion version) stream) ∧
      reader.frames.length ≤ 500 ∧
      ∀ frame ∈ reader.finished, frame.Finished (if version.atLeast 2 1 then 9 else 7) stream) ∧
    ∀ count error, .error error ∈ (calls version count (State.start stream)).1 →
      error.cause ≠ .malformed .incompleteUnit := by
  have counted (count : Nat) : ∃ steps reader, after version stream steps = .ok reader ∧
      reader.frames = [] ∧ reader.held = none ∧
      (reader.results, reader.state) = calls version count (State.start stream) ∧
      reader.Accounted (.ofVersion version) stream := by
    obtain ⟨steps, idle, same⟩ := Session.exists_calls version stream count
    obtain ⟨reader, reached, follows, accounted⟩ := exists_after version stream steps
    refine ⟨steps, reader, reached, ?_, follows.held.trans idle.2, ?_, accounted⟩
    · exact List.map_eq_nil_iff.mp (follows.frames.trans idle.1)
    · rw [follows.results, follows.state, same]
  refine ⟨fun count => ?_, fun steps => ?_, fun count error member => ?_⟩
  · obtain ⟨steps, reader, reached, none, free, same, _⟩ := counted count
    exact ⟨steps, reader, reached, none, free, same⟩
  · obtain ⟨reader, reached, follows, accounted⟩ := exists_after version stream steps
    refine ⟨reader, reached, follows, accounted.frames, accounted.few, ?_⟩
    rw [← fieldCount_ofVersion]
    exact accounted.finished
  · obtain ⟨steps, reader, _, _, _, same, accounted⟩ := counted count
    rw [← same] at member
    exact accounted.complete error member

/-- A pair awaits its second item. -/
example : (after ⟨3, 8⟩ [0x29, 2, 0x4e, 0x4e] 3).map Countdown.frames =
    .ok [⟨0, none, .sequence .tuple 1 #[.none]⟩] :=
  rfl

end Countdown

end PycListing.Marshal
