import PycListing.Proofs.Marshal.BackReference
import PycListing.Proofs.Marshal.Culprit
import PycListing.Proofs.Marshal.Progress
import Mathlib.Data.List.Forall2

/-! # Errors point at their cause

An error of a call points into the part of the stream that the call has read, at what is wrong with
it: at a tag that there is none of, at a reference that finds nothing, at a unit with a field of a
wrong type, at a length below zero, at a payload that goes on behind the end, or at the end itself.
When the nesting is too deep, as many containers as the limit allows are still open
(`PycListing.Marshal.error_explained`).
-/

namespace PycListing.Marshal

/-! ## Records that are being read -/

theorem Record.isReading_or (record : Record) :
    record.isReading = true ∧ record.value? = none ∨
      record.isReading = false ∧ (record.value? = none ∨ ∃ value, record.value? = some value) := by
  rcases record with ⟨before, first, around, _ | value | error⟩
  · exact .inl ⟨rfl, rfl⟩
  · exact .inr ⟨rfl, .inr ⟨value, rfl⟩⟩
  · exact .inr ⟨rfl, .inl rfl⟩

theorem filter_isReading_completeNewest (value : Value) (records : List Record) :
    (completeNewest value records).filter Record.isReading =
      (records.filter Record.isReading).tail := by
  induction records with
  | nil => rfl
  | cons record older ih =>
      by_cases reading : record.isReading = true
      · rw [completeNewest, if_pos reading, List.filter_cons_of_pos reading, List.tail_cons]
        exact List.filter_cons_of_neg (by rw [Record.isReading_complete]; exact Bool.false_ne_true)
      · rw [completeNewest, if_neg reading, List.filter_cons_of_neg reading,
          List.filter_cons_of_neg reading, ih]

/-- No object is being read once an error has cut them. -/
theorem filter_isReading_map_cutBy (error : Error) (records : List Record) :
    (records.map (Record.cutBy error)).filter Record.isReading = [] := by
  apply List.filter_eq_nil_iff.mpr
  intro record member
  obtain ⟨old, _, rfl⟩ := List.mem_map.mp member
  rw [old.isReading_cutBy]
  exact Bool.false_ne_true

theorem mem_completeNewest {value : Value} {record : Record} {records : List Record}
    (member : record ∈ completeNewest value records) :
    record ∈ records ∨ ∃ other ∈ records, record = other.complete value := by
  induction records with
  | nil => exact .inl member
  | cons first older ih =>
      rw [completeNewest] at member
      split at member
      · rcases List.mem_cons.mp member with same | later
        · exact .inr ⟨first, List.mem_cons_self, same⟩
        · exact .inl (List.mem_cons_of_mem _ later)
      · rcases List.mem_cons.mp member with same | later
        · exact .inl (same ▸ List.mem_cons_self)
        · rcases ih later with found | ⟨other, found, same⟩
          · exact .inl (List.mem_cons_of_mem _ found)
          · exact .inr ⟨other, List.mem_cons_of_mem _ found, same⟩

namespace Read

theorem belongs_of_accept {stream : List UInt8} {start : Nat} {layout : CodeLayout} {value : Value}
    {pending opened : Pending} {complete : Bool} {state after : State}
    (belongs : Belongs stream start pending)
    (accepted : accept layout value pending state = .ok (opened, complete) after) :
    Belongs stream start opened := by
  refine ⟨belongs.letter, ?_⟩
  cases pending with
  | sequence =>
      cases accepted
      exact fun _ _ _ _ other => by cases other
  | dict key pairs =>
      cases key with
      | some key =>
          cases accepted
          exact fun _ _ _ _ other => by cases other
      | none => cases value <;> cases accepted <;> exact fun _ _ _ _ other => by cases other
  | unit place counters fields firstLine =>
      obtain ⟨line, rfl⟩ := accept_unit accepted
      rintro _ _ _ _ ⟨⟩
      exact belongs.unit _ _ _ _ rfl

end Read

namespace Session

variable {layout : CodeLayout} {stream : List UInt8} {place : Nat} {session later : Session}

/-- Where the objects start that were begun at a place or behind it and are not complete. -/
def unfinished (session : Session) (place : Nat) : List Nat :=
  (session.records.filter fun record => place ≤ record.offset && record.value?.isNone).map
    Record.offset

/-- The objects that are being read were begun at a place or behind it, and those that an error cut
in front of it. -/
structure Since (place : Nat) (records : List Record) : Prop where
  begun : ∀ record ∈ records, record.isReading = true → place ≤ record.offset
  past : ∀ record ∈ records, record.isReading = false → record.value? = none →
    record.offset < place

theorem Since.noting (since : Since place session.records)
    (onward : place ≤ session.state.input.offset) (first : UInt8) :
    Since place (session.noting first).records where
  begun := List.forall_mem_cons.mpr ⟨fun _ => onward, since.begun⟩
  past := List.forall_mem_cons.mpr ⟨nofun, since.past⟩

theorem Since.completeNewest {records : List Record} (since : Since place records) (value : Value) :
    Since place (completeNewest value records) := by
  constructor
  · intro record member reading
    rcases mem_completeNewest member with old | ⟨other, _, rfl⟩
    · exact since.begun record old reading
    · cases reading
  · intro record member shut noValue
    rcases mem_completeNewest member with old | ⟨other, _, rfl⟩
    · exact since.past record old shut noValue
    · cases noValue

/-- The objects that an error leaves unfinished are those that were being read. -/
theorem unfinished_fails (since : Since place session.records) (error : Error) (final : State) :
    (session.fails error final).unfinished place =
      (session.records.filter Record.isReading).map Record.offset := by
  have sameOffset (record : Record) : (record.cutBy error).offset = record.offset :=
    congrArg (fun origin => origin.1.input.offset) (record.origin_cutBy error)
  change ((session.records.map (Record.cutBy error)).filter _).map Record.offset = _
  rw [List.filter_map, List.map_map]
  have kept : session.records.filter ((fun record =>
      decide (place ≤ record.offset) && record.value?.isNone) ∘ Record.cutBy error) =
      session.records.filter Record.isReading := by
    apply List.filter_congr
    intro record member
    simp only [Function.comp_apply, sameOffset, Record.value?_cutBy]
    rcases record.isReading_or with ⟨reading, noValue⟩ | ⟨shut, noValue | ⟨value, complete⟩⟩
    · simp only [reading, noValue, since.begun record member reading, decide_true,
        Option.isNone_none, Bool.and_self]
    · have before := since.past record member shut noValue
      simp only [shut, Nat.not_le.mpr before, decide_false, Bool.false_and]
    · simp only [shut, complete, Option.isNone_some, Bool.and_false]
  rw [kept]
  exact List.map_congr_left fun record _ => sameOffset record

/-! ## During a call -/

/-- What holds while a call is under way that started at a place: the open frames are those of the
objects being read, which it began. -/
structure Underway (stream : List UInt8) (place : Nat) (session : Session) : Prop where
  onward : place ≤ session.state.input.offset
  whole : session.state.input.offset + session.state.input.remaining = stream.length
  few : session.frames.length ≤ depthLimit
  frames : List.Forall₂ (fun frame record => Read.Belongs stream record.offset frame.pending)
    session.frames (session.records.filter Record.isReading)
  since : Since place session.records

theorem Placed.here (placed : session.Placed stream) :
    session.state.input = placeIn stream session.state.input.offset := by
  rw [placeIn, ← placed.rest]

theorem Placed.offset_lt (placed : session.Placed stream) {record : Record}
    (member : record ∈ session.records) : record.offset < session.state.input.offset :=
  (placed.first record.origin (List.mem_map_of_mem member)).1

/-- The first byte of an object stands at the place in front of it. -/
theorem Placed.first_of_cons (placed : session.Placed stream) {first : UInt8} {rest : List UInt8}
    (bytes : session.state.input.rest = first :: rest) :
    stream[session.state.input.offset]? = some first := by
  rw [← List.head?_drop, ← placed.rest, bytes, List.head?_cons]

/-- An innermost frame belongs to the object that was begun last, of those being read. -/
theorem Underway.innermost (underway : session.Underway stream place) {frame : Frame}
    {outer : List Frame} (inner : session.frames = frame :: outer) :
    ∃ record older, session.records.filter Record.isReading = record :: older ∧
      record ∈ session.records ∧ place ≤ record.offset ∧
      Read.Belongs stream record.offset frame.pending ∧
      List.Forall₂ (fun frame record => Read.Belongs stream record.offset frame.pending)
        outer older := by
  have frames := underway.frames
  rw [inner] at frames
  generalize split : session.records.filter Record.isReading = records at frames
  cases frames with
  | @cons _ record _ older belongs others =>
      have among : record ∈ session.records.filter Record.isReading := by
        rw [split]
        exact List.mem_cons_self
      obtain ⟨member, reading⟩ := List.mem_filter.mp among
      exact ⟨record, older, rfl, member, underway.since.begun record member reading, belongs,
        others⟩

/-- At the depth limit, the objects being read are containers, as many as the limit says. -/
theorem Underway.tooDeep (underway : session.Underway stream place)
    (placed : session.Placed stream) (full : depthLimit ≤ session.frames.length) :
    Cause.Holds stream ((session.records.filter Record.isReading).map Record.offset)
      session.state.input.offset .tooDeep := by
  have same := underway.frames.length_eq
  constructor
  · rw [List.length_map, ← same]
    exact Nat.le_antisymm underway.few full
  · intro start member
    obtain ⟨record, among, rfl⟩ := List.mem_map.mp member
    refine ⟨placed.offset_lt (List.mem_filter.mp among).1, ?_⟩
    obtain ⟨index, inside, rfl⟩ := List.mem_iff_getElem.mp among
    exact (underway.frames.get (same ▸ inside) inside).letter

theorem Underway.offset_le (underway : session.Underway stream place) :
    session.state.input.offset ≤ stream.length := by
  rw [← underway.whole]
  exact Nat.le_add_right _ _

/-- What follows a first byte is read behind its place. -/
theorem Placed.behind (placed : session.Placed stream) :
    session.state.input.advance 1 = placeIn stream (session.state.input.offset + 1) := by
  rw [placed.here, advance_placeIn]
  rfl

/-- A step that fails does so with an error that points at its cause. -/
theorem Underway.explained (underway : session.Underway stream place)
    (placed : session.Placed stream) (steps : Steps layout session later) {error : Error}
    (failed : later.results = .error error :: session.results) :
    error.Explained stream (later.unfinished place) place ∧
      (error.cause = .tooDeep → later.state.input.offset = error.offset) := by
  have keepsOut {objects : List Nat}
      (explained : error.Explained stream objects place ∧ error.cause ≠ .tooDeep) :
      error.Explained stream objects place ∧
        (error.cause = .tooDeep → later.state.input.offset = error.offset) :=
    ⟨explained.1, fun deep => absurd deep explained.2⟩
  have objects := unfinished_fails underway.since
  cases steps with
  | reads => exact absurd failed.symm (List.cons_ne_self _ _)
  | opens => exact absurd failed.symm (List.cons_ne_self _ _)
  | takes => exact absurd failed.symm (List.cons_ne_self _ _)
  | closes => exact absurd failed.symm (List.cons_ne_self _ _)
  | returns => cases failed
  | tooDeep free full =>
      cases failed
      rw [objects]
      exact ⟨⟨underway.onward, underway.offset_le, underway.tooDeep placed full⟩, fun _ => rfl⟩
  | ends free room bytes =>
      cases failed
      have noneLeft : session.state.input.remaining = 0 := congrArg List.length bytes
      refine keepsOut ⟨⟨underway.onward, underway.offset_le, .inl ?_⟩, Cause.truncated_ne_tooDeep⟩
      rw [← underway.whole, noneLeft, Nat.add_zero]
  | @unread first _ _ _ free room bytes unread =>
      cases failed
      have stands := placed.first_of_cons bytes
      obtain ⟨inside, _⟩ := List.getElem?_eq_some_iff.mp stands
      rw [unfinished_fails (underway.since.noting underway.onward first)]
      have explains : Read.Explains stream
          (((session.noting first).records.filter Record.isReading).map Record.offset) place
          (session.state.input.offset + 1)
          (Read.opening layout session.state.input.offset first) _ :=
        .opening underway.onward List.mem_cons_self stands layout
      exact keepsOut
        (explains.of_error (Nat.le_succ_of_le underway.onward) inside placed.behind unread)
  | @refuses value frame _ _ _ holds inner refused =>
      cases failed
      rw [objects]
      exact keepsOut ((Read.Explains.accept layout value frame.pending).of_error underway.onward
        underway.offset_le placed.here refused)
  | @spoils value frame outer pending middle final _ holds inner accepted spoiled =>
      cases failed
      obtain ⟨record, older, split, member, begun, belongs, _⟩ := underway.innermost inner
      have start : record.offset ≤ stream.length :=
        Nat.le_trans (Nat.le_of_lt (placed.offset_lt member)) underway.offset_le
      rw [objects, split]
      have accepts : Read.Explains stream [] place session.state.input.offset
          (Read.accept layout value frame.pending) _ := .accept layout value frame.pending
      obtain ⟨next, further, inside, there, _⟩ :=
        accepts.of_ok underway.onward underway.offset_le placed.here accepted
      have explains : Read.Explains stream ((record :: older).map Record.offset) place next
          (Read.finish layout { frame with pending }) _ :=
        .finish begun start List.mem_cons_self (Read.belongs_of_accept belongs accepted) layout
      exact keepsOut
        (explains.of_error (Nat.le_trans underway.onward further) inside there spoiled)

/-- A call that does not end in a step goes on underway. -/
theorem Underway.step (underway : session.Underway stream place)
    (placed : session.Placed stream) (steps : Steps layout session later)
    (goesOn : later.results = session.results) : later.Underway stream place := by
  have ahead := steps.ahead
  have onward := Nat.le_trans underway.onward ahead.offset_le
  have whole := ahead.offset_add_remaining.trans underway.whole
  have outer := underway.frames
  cases steps with
  | tooDeep => exact absurd goesOn (List.cons_ne_self _ _)
  | ends => exact absurd goesOn (List.cons_ne_self _ _)
  | unread => exact absurd goesOn (List.cons_ne_self _ _)
  | returns => exact absurd goesOn (List.cons_ne_self _ _)
  | refuses => exact absurd goesOn (List.cons_ne_self _ _)
  | spoils => exact absurd goesOn (List.cons_ne_self _ _)
  | @reads first _ value _ =>
      refine ⟨onward, whole, underway.few, ?_, ?_⟩
      · change List.Forall₂ _ session.frames ((completeNewest value _).filter Record.isReading)
        rw [filter_isReading_completeNewest]
        exact outer
      · exact (underway.since.noting underway.onward first).completeNewest value
  | @opens first _ frame _ free room bytes found =>
      refine ⟨onward, whole, room, ?_, underway.since.noting underway.onward first⟩
      have stands := placed.first_of_cons bytes
      obtain ⟨inside, _⟩ := List.getElem?_eq_some_iff.mp stands
      have explains := Read.Explains.opening underway.onward
        (List.mem_singleton_self session.state.input.offset) stands layout
      obtain ⟨_, _, _, _, begins⟩ := explains.of_ok (Nat.le_succ_of_le underway.onward) inside
        placed.behind found
      exact .cons begins outer
  | takes holds inner accepted =>
      obtain ⟨record, older, split, _, _, belongs, others⟩ := underway.innermost inner
      have few := underway.few
      rw [inner] at few
      refine ⟨onward, whole, few, ?_, underway.since⟩
      rw [split]
      exact .cons (Read.belongs_of_accept belongs accepted) others
  | @closes _ _ _ _ _ _ assembled holds inner accepted finished =>
      obtain ⟨record, older, split, _, _, belongs, others⟩ := underway.innermost inner
      have few := underway.few
      rw [inner] at few
      refine ⟨onward, whole, Nat.le_of_succ_le few, ?_, underway.since.completeNewest assembled⟩
      change List.Forall₂ _ _ ((completeNewest assembled _).filter Record.isReading)
      rw [filter_isReading_completeNewest, split]
      exact others

/-! ## From call to call -/

/-- Between two calls no object is being read, so a call starts with none. -/
theorem Underway.of_idle (tracked : session.Tracked layout) (placed : session.Placed stream)
    (whole : session.state.input.offset + session.state.input.remaining = stream.length)
    (idle : session.Idle) : session.Underway stream session.state.input.offset := by
  rw [Tracked, idle.1] at tracked
  have shut := tracked.shut_of_nil
  have none : session.records.filter Record.isReading = [] :=
    List.filter_eq_nil_iff.mpr fun record member => by
      rw [shut record member]
      exact Bool.false_ne_true
  refine ⟨Nat.le_refl _, whole, idle.1 ▸ Nat.zero_le _, ?_, ?_, ?_⟩
  · rw [idle.1, none]
    exact .nil
  · intro record member reading
    rw [shut record member] at reading
    cases reading
  · exact fun record member _ _ => placed.offset_lt member

/-- While the results stay as they are, the same call is under way. -/
theorem underway_after {version : Version} {steps count : Nat}
    (idle : (after version stream steps).Idle)
    (before : ∀ earlier ≤ count,
      (after version stream (earlier + steps)).results = (after version stream steps).results) :
    (after version stream (count + steps)).Underway stream
      (after version stream steps).state.input.offset := by
  induction count with
  | zero =>
      rw [Nat.zero_add]
      obtain ⟨_, tracked, _, placed⟩ := invariants version stream steps
      have whole := (ahead_after version stream 0 steps).offset_add_remaining
      rw [Nat.zero_add] at whole
      exact .of_idle tracked placed (whole.trans (Nat.zero_add _)) idle
  | succ count ih =>
      have underway := ih fun earlier sooner => before earlier (Nat.le_succ_of_le sooner)
      obtain ⟨_, _, _, placed⟩ := invariants version stream (count + steps)
      have step := steps_after version stream (count + steps)
      rw [Nat.add_right_comm] at step
      refine underway.step placed step ?_
      rw [before _ (Nat.le_refl _), before _ (Nat.le_succ _)]

end Session

/-! ## Errors of calls -/

/-- **An error points at its cause.** A call that fails, after any number of calls, names an offset
between its own start and the end of the stream, where the stream holds what the cause says. The
objects that the cause is about are those that the call began and did not complete; when there are
too many of them, the reader has stopped at the offset. -/
theorem error_explained {version : Version} {stream : List UInt8} {count : Nat} {error : Error}
    {final : State}
    (failed : read version (calls version count (State.start stream)).2 = .error error final) :
    ∃ steps, (Session.after version stream steps).Idle ∧
      (Session.after version stream steps).results =
        .error error :: (calls version count (State.start stream)).1 ∧
      (Session.after version stream steps).state = final ∧
      error.Explained stream
        ((Session.after version stream steps).unfinished (placeAfter version stream count))
        (placeAfter version stream count) ∧
      (error.cause = .tooDeep → final.input.offset = error.offset) := by
  obtain ⟨steps, more, result, idle, same, ends, _, _⟩ :=
    Session.exists_next_call version stream count
  have called := ends.called idle
  have here : (Session.after version stream steps).state =
      (calls version count (State.start stream)).2 := congrArg Prod.snd same
  rw [here, failed] at called
  cases result with
  | ok value => cases called
  | error reported =>
      obtain ⟨rfl, rfl⟩ := EStateM.Result.error.inj called
      have results := ends.results
      have before := ends.before
      cases more with
      | zero => exact absurd results.symm (List.cons_ne_self _ _)
      | succ last =>
          have stays : ∀ earlier ≤ last, (Session.after version stream (earlier + steps)).results =
              (Session.after version stream steps).results := by
            intro earlier sooner
            rw [Session.after_add]
            exact before earlier (Nat.lt_succ_of_le sooner)
          have underway := Session.underway_after idle stays
          obtain ⟨_, _, _, placed⟩ := Session.invariants version stream (last + steps)
          have step := Session.steps_after version stream (last + steps)
          have goesOn := before last (Nat.lt_succ_self last)
          rw [← Session.after_add] at results goesOn
          rw [Nat.add_right_comm] at step
          have explained := underway.explained placed step (goesOn ▸ results)
          have ended := ends.idle
          rw [← Session.after_add] at ended
          rw [here] at explained
          exact ⟨last + 1 + steps, ended, results.trans (congrArg _ (congrArg Prod.fst same)), rfl,
            explained⟩

/-- The second call finds a tag that there is none of, inside the tuple that it began. -/
theorem error_explained_strayTag :
    read ⟨3, 8⟩ (calls ⟨3, 8⟩ 1 (State.start [0x4e, 0x29, 1, 0x2a])).2 =
      .error ⟨3, .unknownTag 0x2a⟩ ⟨⟨4, []⟩, #[], #[]⟩ ∧
    ∃ steps, (Session.after ⟨3, 8⟩ [0x4e, 0x29, 1, 0x2a] steps).results =
        [.error ⟨3, .unknownTag 0x2a⟩, .ok .none] ∧
      Error.Explained [0x4e, 0x29, 1, 0x2a]
        ((Session.after ⟨3, 8⟩ [0x4e, 0x29, 1, 0x2a] steps).unfinished 1) 1
        ⟨3, .unknownTag 0x2a⟩ := by
  have first : read ⟨3, 8⟩ (State.start [0x4e, 0x29, 1, 0x2a]) =
      .ok .none ⟨⟨1, [0x29, 1, 0x2a]⟩, #[], #[]⟩ := by
    rw [read, Read.run_eq_step]
    rfl
  have before : calls ⟨3, 8⟩ 1 (State.start [0x4e, 0x29, 1, 0x2a]) =
      ([.ok .none], ⟨⟨1, [0x29, 1, 0x2a]⟩, #[], #[]⟩) := by
    simp only [calls, first]
  have failed : read ⟨3, 8⟩ (calls ⟨3, 8⟩ 1 (State.start [0x4e, 0x29, 1, 0x2a])).2 =
      .error ⟨3, .unknownTag 0x2a⟩ ⟨⟨4, []⟩, #[], #[]⟩ := by
    rw [before, read, Read.run_eq_step]
    change Read.run .modern [⟨none, .sequence .tuple 1 #[]⟩] ⟨⟨3, [0x2a]⟩, #[], #[]⟩ = _
    rw [Read.run_eq_step]
    rfl
  obtain ⟨steps, _, results, _, explained, _⟩ := error_explained failed
  rw [placeAfter, before] at explained
  rw [before] at results
  exact ⟨failed, steps, results, explained⟩

end PycListing.Marshal
