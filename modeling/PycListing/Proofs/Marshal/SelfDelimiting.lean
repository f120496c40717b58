import PycListing.Proofs.Marshal.Composition
import PycListing.Proofs.Marshal.RoundTrip

/-! # Objects say where they end

What an object takes of a stream is found out from the bytes it takes alone: they are read the
same way whatever follows them, and without one of them the reader runs out of bytes
(`PycListing.Marshal.read_self_delimiting`). Both hold of a sequence of readers if they hold of
each of them, and the primitive readers have them.
-/

namespace PycListing.Marshal

/-- The state with other bytes ahead. -/
def State.facing (state : State) (bytes : List UInt8) : State :=
  { state with input := ⟨state.input.offset, bytes⟩ }

namespace Read

variable {α β : Type}

/-- The reader fails since the stream comes to an end. -/
def RunsOut (reader : Read α) (state : State) : Prop :=
  ∃ offset after, reader state = .error ⟨offset, .truncated⟩ after

theorem RunsOut.bind {reader : Read α} {state : State} (next : α → Read β)
    (ends : RunsOut reader state) : RunsOut (reader >>= next) state := by
  obtain ⟨offset, after, failed⟩ := ends
  exact ⟨offset, after, bind_of_error failed next⟩

theorem RunsOut.bind_of_ok {reader : Read α} {next : α → Read β} {state after : State} {found : α}
    (read : reader state = .ok found after) (ends : RunsOut (next found) after) :
    RunsOut (reader >>= next) state := by
  obtain ⟨offset, final, failed⟩ := ends
  exact ⟨offset, final, (Read.bind_of_ok read next).trans failed⟩

/-- From a state on, a reader takes some bytes and comes back with a value. Other bytes behind
them change nothing, and none of them can be missing at the end. -/
structure Needs (reader : Read α) (state : State) (taken : List UInt8) (value : α)
    (final : State) : Prop where
  ahead : state.input.rest = taken ++ final.input.rest
  offset : final.input.offset = state.input.offset + taken.length
  enough : ∀ rest, reader (state.facing (taken ++ rest)) = .ok value (final.facing rest)
  short : ∀ part, part <+: taken → part ≠ taken → RunsOut reader (state.facing part)

/-- A reader that needs the bytes that it takes, and no others. -/
def Delimited (reader : Read α) : Prop :=
  ∀ state value final, reader state = .ok value final →
    ∃ taken, Needs reader state taken value final

/-- A sequence of readers needs what the first one needs and then what the second one does. -/
theorem Needs.bind {reader : Read α} {next : α → Read β} {state middle final : State}
    {first second : List UInt8} {found : α} {value : β}
    (head : Needs reader state first found middle)
    (tail : Needs (next found) middle second value final) :
    Needs (reader >>= next) state (first ++ second) value final := by
  constructor
  · rw [head.ahead, tail.ahead, List.append_assoc]
  · rw [tail.offset, head.offset, List.length_append, Nat.add_assoc]
  · intro rest
    rw [List.append_assoc, bind_of_ok (head.enough _)]
    exact tail.enough rest
  · intro part within proper
    -- The bytes end in what the first reader takes, or behind it.
    rcases List.prefix_or_prefix_of_prefix within (List.prefix_append first second) with
      inside | ⟨more, rfl⟩
    · by_cases whole : part = first
      · subst whole
        have read := head.enough []
        rw [List.append_nil] at read
        refine .bind_of_ok read (tail.short [] List.nil_prefix ?_)
        rintro rfl
        exact proper (List.append_nil _).symm
      · exact (head.short part inside whole).bind next
    · refine .bind_of_ok (head.enough more) (tail.short more ?_ ?_)
      · exact (List.prefix_append_right_inj first).mp within
      · rintro rfl
        exact proper rfl

theorem Delimited.bind {reader : Read α} {next : α → Read β} (first : Delimited reader)
    (second : ∀ value, Delimited (next value)) : Delimited (reader >>= next) := by
  intro state value final result
  obtain ⟨found, middle, read, rest⟩ := bind_eq_ok result
  obtain ⟨front, head⟩ := first state found middle read
  obtain ⟨back, tail⟩ := second found middle value final rest
  exact ⟨front ++ back, head.bind tail⟩

/-! ## Primitive readers -/

/-- A reader that takes no bytes does not see those ahead. -/
theorem Needs.nil {reader : Read α} {state final : State} {value : α}
    (still : final.input = state.input)
    (same : ∀ bytes, reader (state.facing bytes) = .ok value (final.facing bytes)) :
    Needs reader state [] value final := by
  constructor
  · rw [still, List.nil_append]
  · rw [still, List.length_nil, Nat.add_zero]
  · exact same
  · intro part within proper
    exact absurd (List.prefix_nil.mp within) proper

theorem Delimited.of_still {reader : Read α}
    (still : ∀ state value final, reader state = .ok value final → final.input = state.input ∧
      ∀ bytes, reader (state.facing bytes) = .ok value (final.facing bytes)) :
    Delimited reader := by
  intro state value final result
  obtain ⟨input, same⟩ := still state value final result
  exact ⟨[], .nil input same⟩

theorem runsOut_number {state : State} {width : Nat} (short : state.input.remaining < width) :
    RunsOut (number width) state :=
  ⟨_, _, number_of_short short⟩

theorem runsOut_payload {state : State} {length : Nat} (short : state.input.remaining < length) :
    RunsOut (payload length) state := by
  simp only [RunsOut, payload, Cursor.take_eq, Nat.not_le.mpr short, if_false]
  exact ⟨_, _, rfl⟩

/-- A reader that yields a value from any string of some length, and runs out before that. -/
theorem Delimited.of_width {reader : Read α} {width : Nat} (meaning : List UInt8 → α)
    (yields : ∀ bytes tables, bytes.length = width →
      Yields reader tables bytes (meaning bytes) tables)
    (short : ∀ state : State, state.input.remaining < width → RunsOut reader state) :
    Delimited reader := by
  intro state value final result
  by_cases fits : width ≤ state.input.remaining
  · have size : (state.input.rest.take width).length = width := List.length_take_of_le fits
    have read : ∀ rest, reader (state.facing (state.input.rest.take width ++ rest)) = _ :=
      yields _ ⟨state.slots, state.interned⟩ size state.input.offset
    have whole := read (state.input.rest.drop width)
    rw [List.take_append_drop] at whole
    have same := result.symm.trans whole
    cases same
    refine ⟨state.input.rest.take width, ⟨?_, rfl, read, ?_⟩⟩
    · exact (List.take_append_drop width state.input.rest).symm
    · intro part within proper
      apply short
      have below : part.length < (state.input.rest.take width).length := by
        refine Nat.lt_of_le_of_ne within.length_le fun same => ?_
        exact proper (within.eq_of_length same)
      rwa [size] at below
  · obtain ⟨offset, after, failed⟩ := short state (Nat.not_le.mp fits)
    rw [failed] at result
    cases result

theorem Delimited.number (width : Nat) : Delimited (Read.number width) :=
  .of_width littleEndian (fun _ tables size => .number size tables) fun _ => runsOut_number

theorem Delimited.payload (length : Nat) : Delimited (Read.payload length) := by
  refine .of_width id (fun bytes tables size => ?_) fun _ => runsOut_payload
  subst size
  exact .payload bytes tables

/-- One case per primitive reader; only a number and a payload take bytes. -/
theorem Composed.delimited {reader : Read α} (composed : Composed reader) : Delimited reader := by
  induction composed with
  | number width => exact .number width
  | payload length => exact .payload length
  | bind _ _ first second => exact .bind first second
  | fail offset cause =>
      intro state found final result
      cases result
  | settle slot value =>
      apply Delimited.of_still
      intro state found final result
      cases slot <;> cases result <;> exact ⟨rfl, fun _ => rfl⟩
  | _ =>
      apply Delimited.of_still
      intro state found final result
      cases result
      exact ⟨rfl, fun _ => rfl⟩

/-! ## Objects -/

theorem Takes.step (layout : CodeLayout) (frames : List Frame) :
    Takes 1 (Read.step layout frames) := by
  refine .bind_right (.of_advances .offset) fun start => ?_
  split
  · exact .fail _ _ _
  · exact .bind .byte fun first => .of_advances (.element _ _ _ _)

/-- Reading on is delimited whatever frames are open. The induction is on the bytes that are left:
each step takes some of them. -/
theorem Delimited.run (layout : CodeLayout) (frames : List Frame) :
    Delimited (Read.run layout frames) := by
  intro state
  induction left : state.input.remaining using Nat.strong_induction_on
    generalizing frames state with
  | _ count ih =>
      intro value final result
      rw [run_eq_step] at result ⊢
      obtain ⟨outcome, middle, stepped, rest⟩ := bind_eq_ok result
      obtain ⟨front, head⟩ := (Composed.step layout frames).delimited _ _ _ stepped
      cases outcome with
      | inl found =>
          cases rest
          exact ⟨_, head.bind (.nil rfl fun _ => rfl)⟩
      | inr opened =>
          have fewer : middle.input.remaining < count := by
            have := Takes.step layout frames _ _ _ stepped
            omega
          obtain ⟨back, tail⟩ := ih _ fewer opened middle rfl value final rest
          exact ⟨_, head.bind tail⟩

end Read

/-- **Objects are self-delimiting.** If a fresh reader comes back with a value, the bytes that it
took give the same value, the same place and the same tables in front of any other bytes; and a
stream that ends among them is truncated, which is the one error that it can have. -/
theorem read_self_delimiting {version : Version} {stream : List UInt8} {value : Value}
    {final : State} (result : read version (State.start stream) = .ok value final) :
    final.input.offset ≤ stream.length ∧
      (∀ other : List UInt8,
        other.take final.input.offset = stream.take final.input.offset →
          read version (State.start other) = .ok value
            ⟨⟨final.input.offset, other.drop final.input.offset⟩, final.slots, final.interned⟩) ∧
      ∀ count < final.input.offset, ∃ offset after,
        read version (State.start (stream.take count)) = .error ⟨offset, .truncated⟩ after := by
  obtain ⟨taken, needs⟩ := Read.Delimited.run _ _ _ _ _ result
  have size : final.input.offset = taken.length := needs.offset.trans (Nat.zero_add _)
  have ahead : stream = taken ++ final.input.rest := needs.ahead
  have front : stream.take taken.length = taken := by
    rw [ahead, List.take_left]
  rw [size]
  refine ⟨?_, ?_, ?_⟩
  · rw [ahead, List.length_append]
    exact Nat.le_add_right _ _
  · intro other same
    rw [front] at same
    have whole : taken ++ other.drop taken.length = other := by
      conv_rhs => rw [← List.take_append_drop taken.length other, same]
    have read := needs.enough (other.drop taken.length)
    rw [whole, State.facing, State.facing, size] at read
    exact read
  · intro count fewer
    have part : stream.take count <+: taken := by
      rw [← front]
      exact List.take_prefix_take_left (Nat.le_of_lt fewer)
    refine needs.short _ part fun same => ?_
    have length := congrArg List.length same
    rw [List.length_take] at length
    omega

/-- A dict of one entry, whose value is its key once more, in front of another object. -/
def dictStream : List UInt8 :=
  [0x7b, 0x74, 1, 0, 0, 0, 0x6b, 0x52, 0, 0, 0, 0, 0x30] ++ [0x4e]

theorem read_dictStream :
    read ⟨2, 7⟩ (State.start dictStream) =
      .ok (.dict [(.bytes [0x6b], .bytes [0x6b])])
        ⟨⟨13, [0x4e]⟩, #[], #[.bytes [0x6b]]⟩ := by
  let tables : Tables := ⟨#[], #[.bytes [0x6b]]⟩
  have key : Written .long 499 .empty (.object (.bytes [0x6b])) [0x74, 1, 0, 0, 0, 0x6b] tables :=
    .plain (.internedBytes (by decide) (by decide))
  have again : Written .long 499 tables (.object (.bytes [0x6b])) [0x52, 0, 0, 0, 0] tables := by
    have small : 0 < 2 ^ 31 := by decide
    exact .plain (.internedReference small rfl)
  have marker : Written .long 499 tables (.entries []) [0x30] tables := .noEntries (.plain .null)
  have written : Written .long depthLimit .empty
      (.object (.dict [(.bytes [0x6b], .bytes [0x6b])]))
      [0x7b, 0x74, 1, 0, 0, 0, 0x6b, 0x52, 0, 0, 0, 0, 0x30] tables :=
    .plain (.dict (.entry Value.noConfusion key again marker))
  rw [read, Read.run_nil_eq]
  exact Read.follows_of_written written 0 [0x4e]

theorem read_self_delimiting_dictStream :
    (∀ other : List UInt8, other.take 13 = dictStream.take 13 →
        read ⟨2, 7⟩ (State.start other) = .ok (.dict [(.bytes [0x6b], .bytes [0x6b])])
          ⟨⟨13, other.drop 13⟩, #[], #[.bytes [0x6b]]⟩) ∧
      ∀ count < 13, ∃ offset after,
        read ⟨2, 7⟩ (State.start (dictStream.take count)) = .error ⟨offset, .truncated⟩ after :=
  (read_self_delimiting read_dictStream).2

end PycListing.Marshal
