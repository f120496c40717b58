import PycListing.Proofs.Marshal.Bookkeeping
import PycListing.Proofs.Marshal.SelfDelimiting

/-! # Reading makes progress

A reader never goes back and never leaves its stream. Each call takes a byte, also if it fails,
unless no byte is left; then it fails and changes nothing. So a stream is read up to its end by at
most as many calls as it has bytes, and what a call costs is limited by the bytes that are left,
whatever the counts are that the stream declares (`PycListing.Marshal.calls_progress`).
-/

namespace PycListing

namespace Cursor

/-- The second place lies ahead of the first one, at the end of the bytes or in front of it. -/
def Ahead (before after : Cursor) : Prop :=
  ∃ count ≤ before.remaining, after = before.advance count

variable {first second third : Cursor}

theorem Ahead.refl (cursor : Cursor) : cursor.Ahead cursor :=
  ⟨0, Nat.zero_le _, cursor.advance_zero.symm⟩

theorem Ahead.trans (onward : first.Ahead second) (further : second.Ahead third) :
    first.Ahead third := by
  obtain ⟨count, within, rfl⟩ := onward
  obtain ⟨more, withinMore, rfl⟩ := further
  rw [remaining_advance] at withinMore
  exact ⟨count + more, by omega, advance_advance _ _ _⟩

theorem Ahead.offset_le (onward : first.Ahead second) : first.offset ≤ second.offset := by
  obtain ⟨count, _, rfl⟩ := onward
  exact Nat.le_add_right _ _

/-- Where the bytes end does not depend on the place among them. -/
theorem Ahead.offset_add_remaining (onward : first.Ahead second) :
    second.offset + second.remaining = first.offset + first.remaining := by
  obtain ⟨count, within, rfl⟩ := onward
  rw [remaining_advance]
  change first.offset + count + (first.remaining - count) = _
  omega

end Cursor

namespace Marshal

namespace Read

variable {α : Type}

theorem Advances.ahead {reader : Read α} (advances : Advances reader) (state : State) :
    state.input.Ahead (finalState (reader state)).input :=
  advances state

theorem Advances.ahead_of_ok {reader : Read α} (advances : Advances reader)
    {state after : State} {value : α} (result : reader state = .ok value after) :
    state.input.Ahead after.input := by
  have moved := advances.ahead state
  rwa [result] at moved

theorem Advances.ahead_of_error {reader : Read α} (advances : Advances reader)
    {state after : State} {error : Error} (result : reader state = .error error after) :
    state.input.Ahead after.input := by
  have moved := advances.ahead state
  rwa [result] at moved

theorem Advances.step (layout : CodeLayout) (frames : List Frame) :
    Advances (Read.step layout frames) := by
  refine .bind .offset fun start => ?_
  split
  · exact .fail _ _
  · exact .bind .byte fun first => .element _ _ _ _

/-- Reading on advances whatever frames are open. The induction is on the bytes that are left:
each step takes some of them. -/
theorem Advances.run (layout : CodeLayout) (frames : List Frame) :
    Advances (Read.run layout frames) := by
  intro state
  change state.input.Ahead _
  induction left : state.input.remaining using Nat.strong_induction_on
    generalizing frames state with
  | _ count ih =>
      have moved := (Advances.step layout frames).ahead state
      rw [run_eq_step]
      cases stepped : Read.step layout frames state with
      | error error after =>
          rw [stepped] at moved
          rw [bind_of_error stepped]
          exact moved
      | ok outcome middle =>
          rw [stepped] at moved
          rw [bind_of_ok stepped]
          cases outcome with
          | inl value => exact moved
          | inr opened =>
              have fewer := Takes.step layout frames _ _ _ stepped
              exact moved.trans (ih middle.input.remaining (by omega) opened middle rfl)

/-- A first byte is taken whatever becomes of the object. -/
theorem offset_lt_of_run {layout : CodeLayout} {frames : List Frame} {state : State}
    (room : frames.length < depthLimit) (left : 0 < state.input.remaining) :
    state.input.offset < (finalState (Read.run layout frames state)).input.offset := by
  obtain ⟨first, rest, bytes⟩ := List.exists_cons_of_length_pos left
  have stepped : step layout frames state = _ := step_of_cons (Nat.not_le.mpr room) bytes
  have moved := ((Advances.element layout state.input.offset first frames).ahead
    { state with input := state.input.advance 1 }).offset_le
  rw [← stepped] at moved
  apply Nat.lt_of_lt_of_le (Nat.lt_succ_self _)
  rw [run_eq_step]
  cases result : Read.step layout frames state with
  | error error after =>
      rw [result] at moved
      rw [bind_of_error result]
      exact moved
  | ok outcome middle =>
      rw [result] at moved
      rw [bind_of_ok result]
      cases outcome with
      | inl value => exact moved
      | inr opened => exact Nat.le_trans moved ((Advances.run layout opened).ahead middle).offset_le

/-! ## Digits -/

/-- Of the digits that a count declares, no more are looked for than the stream has, and one. -/
theorem longDigits_of_short {first second : Nat} {state : State}
    (short : state.input.remaining < 2 * first) (alsoShort : state.input.remaining < 2 * second) :
    longDigits first state = longDigits second state := by
  induction first generalizing second state with
  | zero => omega
  | succ first ih =>
      cases second with
      | zero => omega
      | succ second =>
          rw [longDigits, longDigits, offset_bind, offset_bind]
          by_cases enough : 2 ≤ state.input.remaining
          · have read : signed 2 state = _ := map_of_ok (number_of_enough enough) _
            rw [bind_of_ok read, bind_of_ok read]
            split
            · rfl
            · have left : (state.input.advance 2).remaining + 2 = state.input.remaining := by
                rw [Cursor.remaining_advance]
                omega
              have same : longDigits first { state with input := state.input.advance 2 } =
                  longDigits second { state with input := state.input.advance 2 } :=
                ih (by dsimp only; omega) (by dsimp only; omega)
              simp only [Bind.bind, EStateM.bind, same]
          · have failed : signed 2 state = _ :=
              map_of_error (number_of_short (Nat.lt_of_not_le enough)) _
            rw [bind_of_error failed, bind_of_error failed]

end Read

/-! ## Sessions -/

namespace Session

theorem Steps.ahead {layout : CodeLayout} {session later : Session}
    (steps : Steps layout session later) : session.state.input.Ahead later.state.input := by
  have pastFirst {first : UInt8} {rest : List UInt8}
      (bytes : session.state.input.rest = first :: rest) :
      session.state.input.Ahead (session.state.input.advance 1) := by
    refine ⟨1, ?_, rfl⟩
    rw [Cursor.remaining, bytes]
    exact Nat.succ_pos _
  cases steps with
  | tooDeep => exact .refl _
  | ends => exact .refl _
  | returns => exact .refl _
  | unread _ _ bytes failed =>
      exact (pastFirst bytes).trans (Read.Advances.ahead_of_error (.opening _ _ _) failed)
  | reads _ _ bytes found =>
      exact (pastFirst bytes).trans (Read.Advances.ahead_of_ok (.opening _ _ _) found)
  | opens _ _ bytes found =>
      exact (pastFirst bytes).trans (Read.Advances.ahead_of_ok (.opening _ _ _) found)
  | refuses _ _ failed => exact Read.Advances.ahead_of_error (.accept _ _ _) failed
  | takes _ _ accepted => exact Read.Advances.ahead_of_ok (.accept _ _ _) accepted
  | spoils _ _ accepted failed =>
      exact (Read.Advances.ahead_of_ok (.accept _ _ _) accepted).trans
        (Read.Advances.ahead_of_error (.finish _ _) failed)
  | closes _ _ accepted finished =>
      exact (Read.Advances.ahead_of_ok (.accept _ _ _) accepted).trans
        (Read.Advances.ahead_of_ok (.finish _ _) finished)

theorem ahead_after (version : Version) (stream : List UInt8) (steps more : Nat) :
    (after version stream steps).state.input.Ahead
      (after version stream (steps + more)).state.input := by
  induction more with
  | zero => exact .refl _
  | succ more ih => exact ih.trans (steps_after version stream (steps + more)).ahead

/-- The next call of a reader, as steps of a session. -/
theorem exists_next_call (version : Version) (stream : List UInt8) (count : Nat) :
    ∃ steps more result, (after version stream steps).Idle ∧
      ((after version stream steps).results, (after version stream steps).state) =
        calls version count (State.start stream) ∧
      (after version stream steps).Ends (.ofVersion version) more result ∧
      more ≤ 2 * (after version stream steps).state.input.remaining + 1 ∧
      tagLooks (.ofVersion version) more (after version stream steps) ≤
        (after version stream steps).state.input.remaining + 1 := by
  obtain ⟨steps, idle, same⟩ := exists_calls version stream count
  obtain ⟨more, result, ends, few, looks⟩ :=
    exists_ends (.ofVersion version) (after version stream steps)
  rw [distance, idle.1, idle.2] at few
  exact ⟨steps, more, result, idle, same, ends, few, looks⟩

end Session

/-! ## Calls -/

/-- Where a reader is in a stream after some number of calls. -/
def placeAfter (version : Version) (stream : List UInt8) (count : Nat) : Nat :=
  (calls version count (State.start stream)).2.input.offset

theorem exists_read_eq_returned (version : Version) (state : State) :
    ∃ result, read version state = returned result (Read.finalState (read version state)) := by
  cases read version state with
  | ok value after => exact ⟨.ok value, rfl⟩
  | error error after => exact ⟨.error error, rfl⟩

/-- The next call goes on where the calls before it stopped. -/
theorem state_calls_succ (version : Version) (state : State) (count : Nat) :
    (calls version (count + 1) state).2 =
      Read.finalState (read version (calls version count state).2) := by
  obtain ⟨result, came⟩ := exists_read_eq_returned version (calls version count state).2
  rw [calls_succ came]

theorem ahead_calls (version : Version) (state : State) (count : Nat) :
    state.input.Ahead (calls version count state).2.input := by
  induction count with
  | zero => exact .refl _
  | succ count ih =>
      rw [state_calls_succ]
      exact ih.trans ((Read.Advances.run _ _).ahead _)

section

variable (version : Version) (stream : List UInt8) (count : Nat)

theorem placeAfter_add_remaining :
    placeAfter version stream count +
      (calls version count (State.start stream)).2.input.remaining = stream.length :=
  (ahead_calls version (State.start stream) count).offset_add_remaining.trans (Nat.zero_add _)

theorem placeAfter_le_succ :
    placeAfter version stream count ≤ placeAfter version stream (count + 1) := by
  rw [placeAfter, placeAfter, state_calls_succ]
  exact ((Read.Advances.run _ _).ahead _).offset_le

variable {version stream count}

theorem placeAfter_lt_succ (left : placeAfter version stream count < stream.length) :
    placeAfter version stream count < placeAfter version stream (count + 1) := by
  have split := placeAfter_add_remaining version stream count
  rw [placeAfter, placeAfter, state_calls_succ]
  exact Read.offset_lt_of_run (by decide) (by omega)

/-- A call at the end of the stream changes nothing. -/
theorem calls_succ_of_end (ended : placeAfter version stream count = stream.length) :
    calls version (count + 1) (State.start stream) =
      (.error ⟨stream.length, .truncated⟩ :: (calls version count (State.start stream)).1,
        (calls version count (State.start stream)).2) := by
  have split := placeAfter_add_remaining version stream count
  apply calls_succ
  have noBytes : (calls version count (State.start stream)).2.input.rest = [] :=
    List.eq_nil_of_length_eq_zero (by rw [← Cursor.remaining]; omega)
  rw [read, Read.run_eq_step, Read.bind_of_error (Read.step_of_nil (by decide) noBytes), ← ended]
  rfl

variable (version stream count)

/-- As many calls as there are bytes in front of a place lead to it. -/
theorem le_placeAfter (within : count ≤ stream.length) :
    count ≤ placeAfter version stream count := by
  induction count with
  | zero => exact Nat.zero_le _
  | succ count ih =>
      have before := ih (Nat.le_of_succ_le within)
      by_cases left : placeAfter version stream count < stream.length
      · exact Nat.succ_le_of_lt (Nat.lt_of_le_of_lt before (placeAfter_lt_succ left))
      · have onward := placeAfter_le_succ version stream count
        omega

end

/-- **What the next call does.** -/
structure Progresses (version : Version) (stream : List UInt8) (count : Nat) : Prop where
  within : placeAfter version stream count ≤ stream.length
  onward : placeAfter version stream count ≤ placeAfter version stream (count + 1)
  takes : placeAfter version stream count < stream.length →
    placeAfter version stream count < placeAfter version stream (count + 1)
  /-- At the end, the call fails and leaves the place and the tables alone. -/
  ends : placeAfter version stream count = stream.length →
    calls version (count + 1) (State.start stream) =
      (.error ⟨stream.length, .truncated⟩ :: (calls version count (State.start stream)).1,
        (calls version count (State.start stream)).2)
  /-- Followed step by step, the call comes to its end, and looks for no more tags than there are
  bytes left, and one. -/
  looks : ∃ steps more result,
    ((Session.after version stream steps).results, (Session.after version stream steps).state) =
      calls version count (State.start stream) ∧
    (Session.after version stream steps).Ends (.ofVersion version) more result ∧
    more ≤ 2 * (stream.length - placeAfter version stream count) + 1 ∧
    Session.tagLooks (.ofVersion version) more (Session.after version stream steps) ≤
      stream.length - placeAfter version stream count + 1

theorem progresses (version : Version) (stream : List UInt8) (count : Nat) :
    Progresses version stream count := by
  have split := placeAfter_add_remaining version stream count
  obtain ⟨steps, more, result, _, same, ends, few, looks⟩ :=
    Session.exists_next_call version stream count
  have left : (Session.after version stream steps).state.input.remaining =
      stream.length - placeAfter version stream count := by
    have here := congrArg (Cursor.remaining ∘ State.input ∘ Prod.snd) same
    simp only [Function.comp_apply] at here
    omega
  rw [left] at few looks
  exact ⟨by omega, placeAfter_le_succ version stream count, placeAfter_lt_succ, calls_succ_of_end,
    steps, more, result, same, ends, few, looks⟩

/-- **Reading makes progress.** Whatever was called before, a call goes on from its place without
leaving the stream, takes a byte if there is one, and fails for the lack of one otherwise. At most
as many calls as the stream has bytes lead to its end. Between the steps of a call the place does
not go back either, and the digits that are looked for are those that there are, and one, however
many are declared. -/
theorem calls_progress (version : Version) (stream : List UInt8) :
    (∀ count, Progresses version stream count) ∧
    (∃ count ≤ stream.length, placeAfter version stream count = stream.length) ∧
    (∀ steps more, (Session.after version stream steps).state.input.offset ≤
        (Session.after version stream (steps + more)).state.input.offset ∧
      (Session.after version stream (steps + more)).state.input.offset ≤ stream.length) ∧
    ∀ declared (state : State), state.input.remaining < 2 * declared →
      Read.longDigits declared state =
        Read.longDigits (state.input.remaining / 2 + 1) state := by
  refine ⟨progresses version stream, ⟨stream.length, Nat.le_refl _, ?_⟩, ?_, ?_⟩
  · have reached := le_placeAfter version stream stream.length (Nat.le_refl _)
    have within := (progresses version stream stream.length).within
    omega
  · intro steps more
    have whole := (Session.ahead_after version stream 0 (steps + more)).offset_add_remaining
    rw [Nat.zero_add] at whole
    change _ = 0 + stream.length at whole
    exact ⟨(Session.ahead_after version stream steps more).offset_le, by omega⟩
  · intro declared state short
    exact Read.longDigits_of_short short (by omega)

end Marshal

end PycListing
