import PycListing.Proofs.Marshal.Refinement
import Mathlib.Logic.Function.Iterate

/-! # Reading object after object

A reader is asked for objects one after another, also after it failed. A session follows it from
tag to tag and from one complete object to the next, and keeps a record of every object whose
first byte was taken. The records have no influence on the reader: forgetting them gives back the
results of the calls, and the state that they leave (`PycListing.Marshal.Session.exists_calls`).
-/

namespace PycListing.Marshal

/-! ## Records -/

inductive Outcome where
  | reading
  | complete (value : Value)
  /-- The object, or another one inside it, failed. -/
  | cut (error : Error)

/-- An object whose first byte was taken. -/
structure Record where
  /-- The state of the reader in front of the first byte. -/
  before : State
  first : UInt8
  /-- The containers that were open around the object, the innermost one first. -/
  around : List Frame
  outcome : Outcome

namespace Record

def offset (record : Record) : Nat :=
  record.before.input.offset

def flagged (record : Record) : Bool :=
  isFlagged record.first

/-- Whether the object is a string that joins the interned ones. -/
def interned (record : Record) : Bool :=
  Read.announces .interned record.first

def isReading (record : Record) : Bool :=
  match record.outcome with
  | .reading => true
  | _ => false

/-- The value of an object that is complete. -/
def value? (record : Record) : Option Value :=
  match record.outcome with
  | .complete value => some value
  | _ => none

def complete (value : Value) (record : Record) : Record :=
  { record with outcome := .complete value }

/-- An error cuts the reading of an object that is not complete. -/
def cutBy (error : Error) (record : Record) : Record :=
  if record.isReading then { record with outcome := .cut error } else record

end Record

/-- The object that was begun last, of those still being read, is complete. The newest record is
the first. -/
def completeNewest (value : Value) : List Record → List Record
  | [] => []
  | record :: older =>
    if record.isReading then record.complete value :: older
    else record :: completeNewest value older

/-! ## Sessions -/

structure Session where
  state : State
  frames : List Frame
  /-- An object that is complete and was not yet handed to the innermost frame. -/
  held : Option Value
  /-- The objects begun so far, the newest one first. -/
  records : List Record
  /-- What the calls came back with so far, the last one first. -/
  results : List (Except Error Value)

namespace Session

/-- A reader at the start of a stream, which was asked for nothing yet. -/
def start (stream : List UInt8) : Session :=
  ⟨State.start stream, [], none, [], []⟩

def Idle (session : Session) : Prop :=
  session.frames = [] ∧ session.held = none

def noting (session : Session) (first : UInt8) : Session :=
  { session with
    records := ⟨session.state, first, session.frames, .reading⟩ :: session.records }

def fails (session : Session) (error : Error) (after : State) : Session where
  state := after
  frames := []
  held := none
  records := session.records.map (Record.cutBy error)
  results := .error error :: session.results

def opens (session : Session) (frame : Frame) (after : State) : Session :=
  { session with state := after, frames := frame :: session.frames }

/-- An object is complete, and the given frames await it. -/
def completes (session : Session) (value : Value) (frames : List Frame) (after : State) : Session :=
  { session with
    state := after
    frames
    held := some value
    records := completeNewest value session.records }

/-- Takes the next tag, and reads what it announces. -/
def takeTag (layout : CodeLayout) (session : Session) : Session :=
  if depthLimit ≤ session.frames.length then
    session.fails ⟨session.state.input.offset, .tooDeep⟩ session.state
  else
    match Read.byte session.state with
    | .error error after => session.fails error after
    | .ok first after =>
      match Read.opening layout session.state.input.offset first after with
      | .error error final => (session.noting first).fails error final
      | .ok (.inl value) final => (session.noting first).completes value session.frames final
      | .ok (.inr frame) final => (session.noting first).opens frame final

/-- Hands a complete object to the innermost frame. -/
def handOver (layout : CodeLayout) (session : Session) (value : Value) (frame : Frame)
    (outer : List Frame) : Session :=
  match Read.accept layout value frame.pending session.state with
  | .error error after => session.fails error after
  | .ok (pending, false) after =>
    { session with state := after, frames := { frame with pending } :: outer, held := none }
  | .ok (pending, true) after =>
    match Read.finish layout { frame with pending } after with
    | .error error final => session.fails error final
    | .ok assembled final => session.completes assembled outer final

/-- The call comes back with a complete object. -/
def returns (session : Session) (value : Value) : Session :=
  { session with held := none, results := .ok value :: session.results }

/-- One step of a reader that is asked for one object after another. -/
def next (layout : CodeLayout) (session : Session) : Session :=
  match session.held, session.frames with
  | none, _ => session.takeTag layout
  | some value, [] => session.returns value
  | some value, frame :: outer => session.handOver layout value frame outer

/-- The session of a stream that a version wrote, after some number of steps. -/
def after (version : Version) (stream : List UInt8) (steps : Nat) : Session :=
  (next (.ofVersion version))^[steps] (start stream)

/-! ## Steps -/

/-- **What a step can do.** -/
inductive Steps (layout : CodeLayout) (session : Session) : Session → Prop where
  | tooDeep (free : session.held = none) (full : depthLimit ≤ session.frames.length) :
      Steps layout session (session.fails ⟨session.state.input.offset, .tooDeep⟩ session.state)
  | ends (free : session.held = none) (room : session.frames.length < depthLimit)
      (bytes : session.state.input.rest = []) :
      Steps layout session (session.fails ⟨session.state.input.offset, .truncated⟩ session.state)
  | unread {first : UInt8} {rest : List UInt8} {error : Error} {final : State}
      (free : session.held = none) (room : session.frames.length < depthLimit)
      (bytes : session.state.input.rest = first :: rest)
      (failed : Read.opening layout session.state.input.offset first
        { session.state with input := session.state.input.advance 1 } = .error error final) :
      Steps layout session ((session.noting first).fails error final)
  | reads {first : UInt8} {rest : List UInt8} {value : Value} {final : State}
      (free : session.held = none) (room : session.frames.length < depthLimit)
      (bytes : session.state.input.rest = first :: rest)
      (found : Read.opening layout session.state.input.offset first
        { session.state with input := session.state.input.advance 1 } = .ok (.inl value) final) :
      Steps layout session ((session.noting first).completes value session.frames final)
  | opens {first : UInt8} {rest : List UInt8} {frame : Frame} {final : State}
      (free : session.held = none) (room : session.frames.length < depthLimit)
      (bytes : session.state.input.rest = first :: rest)
      (found : Read.opening layout session.state.input.offset first
        { session.state with input := session.state.input.advance 1 } = .ok (.inr frame) final) :
      Steps layout session ((session.noting first).opens frame final)
  | returns {value : Value} (holds : session.held = some value) (none : session.frames = []) :
      Steps layout session (session.returns value)
  | refuses {value : Value} {frame : Frame} {outer : List Frame} {error : Error} {final : State}
      (holds : session.held = some value) (inner : session.frames = frame :: outer)
      (failed : Read.accept layout value frame.pending session.state = .error error final) :
      Steps layout session (session.fails error final)
  | takes {value : Value} {frame : Frame} {outer : List Frame} {pending : Pending} {final : State}
      (holds : session.held = some value) (inner : session.frames = frame :: outer)
      (accepted : Read.accept layout value frame.pending session.state =
        .ok (pending, false) final) :
      Steps layout session
        { session with state := final, frames := { frame with pending } :: outer, held := none }
  | spoils {value : Value} {frame : Frame} {outer : List Frame} {pending : Pending}
      {middle final : State} {error : Error} (holds : session.held = some value)
      (inner : session.frames = frame :: outer)
      (accepted : Read.accept layout value frame.pending session.state = .ok (pending, true) middle)
      (failed : Read.finish layout { frame with pending } middle = .error error final) :
      Steps layout session (session.fails error final)
  | closes {value : Value} {frame : Frame} {outer : List Frame} {pending : Pending}
      {middle final : State} {assembled : Value} (holds : session.held = some value)
      (inner : session.frames = frame :: outer)
      (accepted : Read.accept layout value frame.pending session.state = .ok (pending, true) middle)
      (finished : Read.finish layout { frame with pending } middle = .ok assembled final) :
      Steps layout session (session.completes assembled outer final)

theorem steps_takeTag {layout : CodeLayout} {session : Session} (free : session.held = none) :
    Steps layout session (session.takeTag layout) := by
  unfold takeTag
  by_cases full : depthLimit ≤ session.frames.length
  · rw [if_pos full]
    exact .tooDeep free full
  · rw [if_neg full]
    have room : session.frames.length < depthLimit := by omega
    cases bytes : session.state.input.rest with
    | nil =>
        rw [Read.byte_of_nil bytes]
        exact .ends free room bytes
    | cons first rest =>
        rw [Read.byte_of_cons bytes]
        dsimp only
        split
        · rename_i failed
          exact .unread free room bytes failed
        · rename_i found
          exact .reads free room bytes found
        · rename_i found
          exact .opens free room bytes found

theorem steps_handOver {layout : CodeLayout} {session : Session} {value : Value} {frame : Frame}
    {outer : List Frame} (holds : session.held = some value)
    (inner : session.frames = frame :: outer) :
    Steps layout session (session.handOver layout value frame outer) := by
  unfold handOver
  split
  · rename_i failed
    exact .refuses holds inner failed
  · rename_i accepted
    exact .takes holds inner accepted
  · rename_i accepted
    split
    · rename_i failed
      exact .spoils holds inner accepted failed
    · rename_i finished
      exact .closes holds inner accepted finished

theorem steps_next (layout : CodeLayout) (session : Session) :
    Steps layout session (session.next layout) := by
  unfold next
  split
  · rename_i free
    exact steps_takeTag free
  · rename_i holds none
    exact .returns holds none
  · rename_i holds inner
    exact steps_handOver holds inner

theorem steps_after (version : Version) (stream : List UInt8) (steps : Nat) :
    Steps (.ofVersion version) (after version stream steps) (after version stream (steps + 1)) := by
  unfold after
  rw [Function.iterate_succ_apply']
  exact steps_next _ _

/-- A property that the start has and every step preserves is one of all sessions. -/
theorem after_induction {version : Version} {stream : List UInt8} {motive : Session → Prop}
    (initial : motive (start stream))
    (preserved : ∀ {session later : Session}, motive session →
      Steps (.ofVersion version) session later → motive later) (steps : Nat) :
    motive (after version stream steps) := by
  induction steps with
  | zero => exact initial
  | succ steps ih => exact preserved ih (steps_after version stream steps)

/-! ## Calls -/

/-- What the call that is under way comes to. -/
def comesTo (layout : CodeLayout) (session : Session) : EStateM.Result Error State Value :=
  match session.held with
  | none => Read.run layout session.frames session.state
  | some value => Read.resume layout session.frames value session.state

/-- How far the call that is under way is from its end. -/
def distance (session : Session) : Nat :=
  2 * session.state.input.remaining + session.frames.length +
    if session.held.isSome then 1 else 0

/-- Whether the next step looks for a tag. -/
def looksForTag (session : Session) : Bool :=
  session.held.isNone

/-- How many of some next steps look for a tag. -/
def tagLooks (layout : CodeLayout) : Nat → Session → Nat
  | 0, _ => 0
  | steps + 1, session => session.looksForTag.toNat + tagLooks layout steps (session.next layout)

end Session

/-- The result of a call, and the state that it leaves. -/
def returned : Except Error Value → State → EStateM.Result Error State Value
  | .ok value, state => .ok value state
  | .error error, state => .error error state

namespace Session

/-- The call under way ends after a number of steps, and not before. -/
structure Ends (layout : CodeLayout) (session : Session) (steps : Nat)
    (result : Except Error Value) : Prop where
  idle : ((next layout)^[steps] session).Idle
  results : ((next layout)^[steps] session).results = result :: session.results
  comes : session.comesTo layout = returned result ((next layout)^[steps] session).state
  before : ∀ earlier < steps, ((next layout)^[earlier] session).results = session.results

theorem run_of_cons {layout : CodeLayout} {frames : List Frame} {state : State} {first : UInt8}
    {rest : List UInt8} (room : frames.length < depthLimit)
    (bytes : state.input.rest = first :: rest) :
    Read.run layout frames state =
      (Read.opening layout state.input.offset first >>= fun front =>
        Read.handOn layout frames front >>= Read.goOn layout)
        { state with input := state.input.advance 1 } := by
  have open_ : ¬depthLimit ≤ frames.length := by omega
  rw [Read.run_eq_step, ← bind_assoc, ← Read.element_eq_opening]
  simp only [Bind.bind, EStateM.bind, Read.step_of_cons open_ bytes]

theorem remaining_of_opening {layout : CodeLayout} {start : Nat} {first : UInt8}
    {rest : List UInt8} {state final : State} {front : Value ⊕ Frame}
    (bytes : state.input.rest = first :: rest)
    (found : Read.opening layout start first
      { state with input := state.input.advance 1 } = .ok front final) :
    final.input.remaining < state.input.remaining := by
  have taken := Read.Takes.of_advances (.opening layout start first) _ _ _ found
  have some : 0 < state.input.remaining := by
    rw [Cursor.remaining, bytes]
    exact Nat.succ_pos _
  rw [Cursor.remaining_advance] at taken
  omega

theorem comesTo_of_free {session : Session} (layout : CodeLayout) (free : session.held = none) :
    session.comesTo layout = Read.run layout session.frames session.state := by
  rw [comesTo, free]

theorem comesTo_of_holds {session : Session} {value : Value} {frame : Frame} {outer : List Frame}
    (layout : CodeLayout) (holds : session.held = some value)
    (inner : session.frames = frame :: outer) :
    session.comesTo layout =
      (Read.accept layout value frame.pending >>= fun (pending, complete) =>
        if complete then
          Read.assemble layout pending >>= Read.settled frame.slot >>= Read.resume layout outer
        else Read.run layout ({ frame with pending } :: outer)) session.state := by
  rw [comesTo, holds, inner]
  exact congrFun (Read.resume_cons layout frame outer value) session.state

/-- A step ends the call that is under way, or brings it closer to the same end. Looking for a tag
takes a byte, unless the call ends. -/
theorem Steps.call {layout : CodeLayout} {session later : Session}
    (steps : Steps layout session later) :
    (later.Idle ∧ ∃ result, later.results = result :: session.results ∧
      session.comesTo layout = returned result later.state) ∨
    (later.results = session.results ∧ later.comesTo layout = session.comesTo layout ∧
      later.distance < session.distance ∧ later.state.input.remaining +
        session.looksForTag.toNat ≤ session.state.input.remaining) := by
  cases steps with
  | tooDeep free full =>
      refine .inl ⟨⟨rfl, rfl⟩, _, rfl, ?_⟩
      rw [comesTo_of_free _ free, Read.run_eq_step, Read.bind_of_error (Read.step_of_full full _)]
      rfl
  | ends free room bytes =>
      have open_ : ¬depthLimit ≤ session.frames.length := by omega
      refine .inl ⟨⟨rfl, rfl⟩, _, rfl, ?_⟩
      rw [comesTo_of_free _ free, Read.run_eq_step,
        Read.bind_of_error (Read.step_of_nil open_ bytes)]
      rfl
  | unread free room bytes failed =>
      refine .inl ⟨⟨rfl, rfl⟩, _, rfl, ?_⟩
      rw [comesTo_of_free _ free, run_of_cons room bytes, Read.bind_of_error failed]
      rfl
  | reads free room bytes found =>
      have taken := remaining_of_opening bytes found
      refine .inr ⟨rfl, ?_, ?_, ?_⟩
      · rw [comesTo_of_free _ free, run_of_cons room bytes, Read.bind_of_ok found]
        rfl
      · simp only [distance, completes, noting, free, Option.isSome_some, Option.isSome_none,
          if_true, Bool.false_eq_true, if_false]
        omega
      · rw [looksForTag, free]
        exact taken
  | opens free room bytes found =>
      have taken := remaining_of_opening bytes found
      refine .inr ⟨rfl, ?_, ?_, ?_⟩
      · rw [comesTo_of_free _ free, run_of_cons room bytes, Read.bind_of_ok found]
        exact comesTo_of_free _ free
      · simp only [distance, Session.opens, noting, free, Option.isSome_none, List.length_cons]
        omega
      · rw [looksForTag, free]
        exact taken
  | returns holds none =>
      refine .inl ⟨⟨none, rfl⟩, _, rfl, ?_⟩
      rw [comesTo, holds, none]
      rfl
  | refuses holds inner failed =>
      refine .inl ⟨⟨rfl, rfl⟩, _, rfl, ?_⟩
      rw [comesTo_of_holds _ holds inner, Read.bind_of_error failed]
      rfl
  | takes holds inner accepted =>
      have taken := Read.Takes.of_advances (.accept _ _ _) _ _ _ accepted
      refine .inr ⟨rfl, ?_, ?_, ?_⟩
      · rw [comesTo_of_holds _ holds inner, Read.bind_of_ok accepted]
        rfl
      · simp only [distance, holds, inner, Option.isSome_some, Option.isSome_none, if_true,
          Bool.false_eq_true, if_false, List.length_cons]
        omega
      · rw [looksForTag, holds]
        exact taken
  | @spoils value frame outer pending middle final error holds inner accepted failed =>
      have spoiled : (Read.assemble layout pending >>= Read.settled frame.slot) middle =
          .error error final := failed
      refine .inl ⟨⟨rfl, rfl⟩, _, rfl, ?_⟩
      rw [comesTo_of_holds _ holds inner, Read.bind_of_ok accepted]
      exact Read.bind_of_error spoiled _
  | @closes value frame outer pending middle final assembled holds inner accepted finished =>
      have closed : (Read.assemble layout pending >>= Read.settled frame.slot) middle =
          .ok assembled final := finished
      have taken := Read.Takes.of_advances (.accept _ _ _) _ _ _ accepted
      have kept := Read.Takes.of_advances (.finish _ _) _ _ _ finished
      refine .inr ⟨rfl, ?_, ?_, ?_⟩
      · rw [comesTo_of_holds _ holds inner, Read.bind_of_ok accepted]
        change _ = (Read.assemble layout pending >>= Read.settled frame.slot >>=
          Read.resume layout outer) middle
        rw [Read.bind_of_ok closed]
        rfl
      · simp only [distance, completes, holds, inner, Option.isSome_some, List.length_cons]
        omega
      · rw [looksForTag, holds]
        exact Nat.le_trans kept taken

/-- The call under way ends, with what it comes to. The induction is on its distance from the end,
which limits the steps; each of the tags that are looked for takes a byte, but for the last one. -/
theorem exists_ends (layout : CodeLayout) (session : Session) :
    ∃ steps result, session.Ends layout steps result ∧ steps ≤ session.distance + 1 ∧
      tagLooks layout steps session ≤ session.state.input.remaining + 1 := by
  induction size : session.distance using Nat.strongRecOn generalizing session with
  | _ size ih =>
  rcases (steps_next layout session).call with
    ⟨idle, result, results, ended⟩ | ⟨results, same, closer, taken⟩
  · refine ⟨1, result, ⟨idle, results, ended, ?_⟩, Nat.le_add_left _ _, ?_⟩
    · intro earlier before
      rw [Nat.lt_one_iff.mp before]
      rfl
    · have one := session.looksForTag.toNat_le
      rw [tagLooks, tagLooks]
      omega
  · obtain ⟨steps, result, ⟨idle, more, ended, before⟩, few, looks⟩ :=
      ih _ (size ▸ closer) (session.next layout) rfl
    refine ⟨steps + 1, result, ⟨idle, results ▸ more, same ▸ ended, ?_⟩, ?_, ?_⟩
    · intro earlier sooner
      cases earlier with
      | zero => rfl
      | succ earlier => exact (before earlier (Nat.lt_of_succ_lt_succ sooner)).trans results
    · omega
    · rw [tagLooks]
      omega

end Session

/-- A number of calls one after another: what they come back with, the last one first, and the
state that they leave. -/
def calls (version : Version) : Nat → State → List (Except Error Value) × State
  | 0, state => ([], state)
  | count + 1, state =>
    let (results, middle) := calls version count state
    match read version middle with
    | .ok value after => (.ok value :: results, after)
    | .error error after => (.error error :: results, after)

theorem calls_succ {version : Version} {count : Nat} {state final : State}
    {result : Except Error Value}
    (ended : read version (calls version count state).2 = returned result final) :
    calls version (count + 1) state = (result :: (calls version count state).1, final) := by
  rw [calls]
  cases result with
  | ok value => simp only [ended, returned]
  | error error => simp only [ended, returned]

namespace Session

theorem after_add (version : Version) (stream : List UInt8) (steps more : Nat) :
    after version stream (more + steps) =
      (next (.ofVersion version))^[more] (after version stream steps) :=
  Function.iterate_add_apply _ _ _ _

variable {version : Version} {stream : List UInt8} {count steps more : Nat}
  {result : Except Error Value}

/-- A call that ends in a session is one of the reader. -/
theorem Ends.called (idle : (after version stream steps).Idle)
    (ends : (after version stream steps).Ends (.ofVersion version) more result) :
    read version (after version stream steps).state =
      returned result (after version stream (more + steps)).state := by
  have ended := ends.comes
  rw [← after_add, comesTo_of_free _ idle.2, idle.1] at ended
  exact ended

/-- It is the next one, if the calls before it are those of the session. -/
theorem Ends.calls (idle : (after version stream steps).Idle)
    (same : ((after version stream steps).results, (after version stream steps).state) =
      calls version count (State.start stream))
    (ends : (after version stream steps).Ends (.ofVersion version) more result) :
    ((after version stream (more + steps)).results, (after version stream (more + steps)).state) =
      calls version (count + 1) (State.start stream) := by
  have called : read version (Marshal.calls version count (State.start stream)).2 =
      returned result (after version stream (more + steps)).state := by
    rw [← same]
    exact ends.called idle
  have results := ends.results
  rw [← after_add] at results
  rw [calls_succ called, ← same, results]

/-- **Sessions are the calls of a reader.** After any number of calls, what they came back with
and the state that they leave are those of a session with no call under way. -/
theorem exists_calls (version : Version) (stream : List UInt8) (count : Nat) :
    ∃ steps, (after version stream steps).Idle ∧
      ((after version stream steps).results, (after version stream steps).state) =
        calls version count (State.start stream) := by
  induction count with
  | zero => exact ⟨0, ⟨rfl, rfl⟩, rfl⟩
  | succ count ih =>
      obtain ⟨steps, idle, same⟩ := ih
      obtain ⟨more, result, ends, _⟩ :=
        exists_ends (.ofVersion version) (after version stream steps)
      refine ⟨more + steps, ?_, ends.calls idle same⟩
      rw [after_add]
      exact ends.idle

end Session

end PycListing.Marshal
