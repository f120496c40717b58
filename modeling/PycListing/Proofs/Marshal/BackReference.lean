import PycListing.Proofs.LittleEndian
import PycListing.Proofs.Marshal.Bookkeeping

/-! # Back-references

A reference finds an object exactly if the object was complete before the reference was read
(`PycListing.Marshal.Session.disciplined`). What has been read stands in the records of a session:
the slots are the values of the flagged objects in stream order, empty for those that are being
read or were cut, and the interned strings are those that are complete.
-/

namespace PycListing.Marshal

/-! ## Looking up -/

/-- The entry of a table that an index refers to. -/
def lookUp (table : List (Option Value)) (index : Int) : Option Value :=
  if index < 0 then none else (table[index.toNat]?).join

/-- The index that a reference stores behind its first byte. -/
def storedIndex (rest : List UInt8) : Int :=
  Int.bmod (littleEndian (rest.take 4)) (Nat.pow 256 4)

/-- What a reference comes to whose first byte stands at an offset. -/
def referenceOutcome (table : List (Option Value)) (offset : Nat) (rest : List UInt8) : Outcome :=
  if rest.length < 4 then .cut ⟨offset + 1 + rest.length, .truncated⟩
  else
    match lookUp table (storedIndex rest) with
    | some value => .complete value
    | none => .cut ⟨offset, .badReference (storedIndex rest).natAbs⟩

def Outcome.ofResult : EStateM.Result Error State Value → Outcome
  | .ok value _ => .complete value
  | .error error _ => .cut error

/-- A reserved slot is found no more than one that does not exist. -/
theorem lookUp_append_none (table : List (Option Value)) (index : Int) :
    lookUp (table ++ [none]) index = lookUp table index := by
  unfold lookUp
  by_cases negative : index < 0
  · rw [if_pos negative, if_pos negative]
  · rw [if_neg negative, if_neg negative]
    by_cases inside : index.toNat < table.length
    · rw [List.getElem?_append_left inside]
    · have beyond : table.length ≤ index.toNat := Nat.le_of_not_lt inside
      rw [List.getElem?_append_right beyond, List.getElem?_eq_none beyond]
      cases index.toNat - table.length <;> rfl

namespace Read

theorem signed_eq (state : State) :
    signed 4 state =
      if state.input.rest.length < 4 then
        .error ⟨state.input.offset + state.input.rest.length, .truncated⟩
          { state with input := state.input.advance state.input.remaining }
      else .ok (storedIndex state.input.rest) { state with input := state.input.advance 4 } := by
  split
  · rename_i short
    exact map_of_error (number_of_short short) _
  · rename_i enough
    exact map_of_ok (number_of_enough (Nat.le_of_not_lt enough)) _

/-- A reference comes to what it finds in a table. -/
theorem outcome_reference {look : Int → Read (Option Value)} {table : List (Option Value)}
    {state : State} {start : Nat} (behind : state.input.offset = start + 1)
    (finds : ∀ index after, after.slots = state.slots → after.interned = state.interned →
      look index after = .ok (lookUp table index) after) :
    Outcome.ofResult (reference start look state) =
      referenceOutcome table start state.input.rest := by
  unfold referenceOutcome
  by_cases short : state.input.rest.length < 4
  · have read := signed_eq state
    rw [if_pos short] at read
    rw [if_pos short, reference, bind_of_error read, behind]
    rfl
  · have read := signed_eq state
    rw [if_neg short] at read
    have found := finds (storedIndex state.input.rest)
      { state with input := state.input.advance 4 } rfl rfl
    rw [if_neg short, reference, bind_of_ok read, bind_of_ok found]
    cases lookUp table (storedIndex state.input.rest) <;> rfl

/-- A scalar is read once its slot is reserved. -/
theorem outcome_opening (layout : CodeLayout) (start : Nat) {first : UInt8} {tag : ScalarTag}
    (announced : announces tag first = true) (state : State) :
    (∃ value final, opening layout start first state = .ok (.inl value) final ∧
      .complete value = Outcome.ofResult (scalar layout.era start tag
        { state with slots := slotted first none state.slots })) ∨
    ∃ error final, opening layout start first state = .error error final ∧
      .cut error = Outcome.ofResult (scalar layout.era start tag
        { state with slots := slotted first none state.slots }) := by
  have known : Tag.ofByte? (withoutFlag first) = some (.scalar tag) := by
    simpa only [announces, beq_iff_eq] using announced
  unfold opening
  rw [bind_of_ok (reserveFor_eq first state), known]
  dsimp only
  cases read : scalar layout.era start tag
      { state with slots := slotted first none state.slots } with
  | ok value after =>
      refine .inl ⟨value, filled (slotOf first state.slots) value after, ?_, rfl⟩
      rw [settledScalar, bind_assoc, bind_of_ok read, bind_assoc, bind_of_ok (settle_eq _ _ _)]
      rfl
  | error error after =>
      refine .inr ⟨error, after, ?_, rfl⟩
      rw [settledScalar, bind_assoc, bind_of_error read]

end Read

namespace Session

def newest (session : Session) : Option Outcome :=
  session.records.head?.map Record.outcome

/-- The next object is a reference, and comes to what it finds in a table: to an object that is
complete, or to an error that ends the call. -/
def LooksUp (layout : CodeLayout) (tag : ScalarTag) (table : List (Option Value))
    (session : Session) : Prop :=
  ∀ first rest, session.held = none → session.frames.length < depthLimit →
    session.state.input.rest = first :: rest → Read.announces tag first = true →
      (session.next layout).newest =
          some (referenceOutcome table session.state.input.offset rest) ∧
        ∀ error, referenceOutcome table session.state.input.offset rest = .cut error →
          (session.next layout).results = .error error :: session.results

/-- A scalar is complete or cut after one step. -/
theorem next_of_scalar {layout : CodeLayout} {session : Session} {first : UInt8}
    {rest : List UInt8} {tag : ScalarTag} {outcome : Outcome} (free : session.held = none)
    (room : session.frames.length < depthLimit)
    (bytes : session.state.input.rest = first :: rest) (announced : Read.announces tag first = true)
    (comes : Outcome.ofResult (Read.scalar layout.era session.state.input.offset tag
      ⟨session.state.input.advance 1, Read.slotted first none session.state.slots,
        session.state.interned⟩) = outcome) :
    (session.next layout).newest = some outcome ∧
      ∀ error, outcome = .cut error →
        (session.next layout).results = .error error :: session.results := by
  have open_ : ¬depthLimit ≤ session.frames.length := by omega
  have stepped : session.next layout = session.takeTag layout := by
    unfold next
    rw [free]
  rw [stepped, takeTag, if_neg open_, Read.byte_of_cons bytes]
  dsimp only
  subst comes
  rcases Read.outcome_opening layout session.state.input.offset announced
    { session.state with input := session.state.input.advance 1 } with
    ⟨value, final, opened, complete⟩ | ⟨error, final, opened, cut⟩
  · rw [opened, ← complete]
    refine ⟨rfl, ?_⟩
    intro error same
    cases same
  · rw [opened, ← cut]
    refine ⟨rfl, ?_⟩
    intro other same
    cases same
    rfl

/-- A reference finds the flagged objects that are complete. -/
theorem looksUp_slots {session : Session} (layout : CodeLayout) (listed : session.Listed) :
    session.LooksUp layout .reference (slotValues session.records) := by
  intro first rest free room bytes announced
  apply next_of_scalar free room bytes announced
  have behind : (session.state.input.advance 1).rest = rest := by
    rw [Cursor.advance, bytes, List.drop_one, List.tail_cons]
  change Outcome.ofResult (Read.reference _ Read.referred? _) = _
  rw [← behind]
  apply Read.outcome_reference rfl
  intro index after slots _
  have same : lookUp (slotValues session.records) index = lookUp after.slots.toList index := by
    rw [slots, toList_slotted, listed.slots]
    by_cases flagged : isFlagged first = true
    · rw [if_pos flagged, lookUp_append_none]
    · rw [if_neg flagged, List.append_nil]
  rw [same, lookUp, Array.getElem?_toList]
  rfl

/-- A reference to an interned string finds those that are complete. -/
theorem looksUp_interned {session : Session} (layout : CodeLayout) (listed : session.Listed) :
    session.LooksUp layout .internedReference ((internedValues session.records).map some) := by
  intro first rest free room bytes announced
  apply next_of_scalar free room bytes announced
  have behind : (session.state.input.advance 1).rest = rest := by
    rw [Cursor.advance, bytes, List.drop_one, List.tail_cons]
  change Outcome.ofResult (Read.reference _ Read.internedAt? _) = _
  rw [← behind]
  apply Read.outcome_reference rfl
  intro index after _ interned
  have same : (internedValues session.records).map some = after.interned.toList.map some := by
    rw [interned, ← listed.interned]
  rw [same, lookUp, List.getElem?_map, Array.getElem?_toList]
  unfold Read.internedAt?
  cases after.interned[index.toNat]? <;> rfl

/-- **What a session keeps.** -/
structure Disciplined (layout : CodeLayout) (stream : List UInt8) (session : Session) : Prop where
  slots : session.state.slots.toList = slotValues session.records
  interned : session.state.interned.toList = internedValues session.records
  frames : session.frames.map Frame.slot = openSlots session.records
  order : session.records.Pairwise fun newer older => older.offset < newer.offset
  first : ∀ record ∈ session.records, stream[record.offset]? = some record.first
  agrees : ∀ record ∈ session.records, record.Agrees layout
  references : session.LooksUp layout .reference (slotValues session.records)
  internedReferences :
    session.LooksUp layout .internedReference ((internedValues session.records).map some)

theorem invariants (version : Version) (stream : List UInt8) (steps : Nat) :
    (after version stream steps).Listed ∧
      (after version stream steps).Tracked (.ofVersion version) ∧
      (after version stream steps).Agreed (.ofVersion version) ∧
      (after version stream steps).Placed stream := by
  refine after_induction (motive := fun session => session.Listed ∧
    session.Tracked (.ofVersion version) ∧ session.Agreed (.ofVersion version) ∧
      session.Placed stream) ?_ ?_ steps
  · refine ⟨⟨rfl, rfl⟩, .nil, ?_, rfl, ?_, .nil⟩
    · intro record member
      cases member
    · intro origin member
      cases member
  · intro session later holds stepped
    rcases holds with ⟨listed, tracked, agreed, placed⟩
    exact ⟨listed.step tracked stepped, tracked.step listed stepped, agreed.step tracked stepped,
      placed.step stepped⟩

theorem disciplined_after (version : Version) (stream : List UInt8) (steps : Nat) :
    Disciplined (.ofVersion version) stream (after version stream steps) := by
  obtain ⟨listed, tracked, agreed, placed⟩ := invariants version stream steps
  constructor
  · exact listed.slots
  · exact listed.interned
  · exact tracked.openSlots_eq
  · exact List.pairwise_map.mp placed.order
  · intro record member
    exact (placed.first record.origin (List.mem_map_of_mem member)).2
  · exact agreed
  · exact looksUp_slots _ listed
  · exact looksUp_interned _ listed

/-- Each object was begun in an earlier session, in the state and among the containers that its
record says. -/
theorem exists_begun (version : Version) (stream : List UInt8) (steps : Nat) :
    ∀ record ∈ (after version stream steps).records, ∃ earlier < steps,
      (after version stream earlier).held = none ∧
      (after version stream earlier).state = record.before ∧
      (after version stream earlier).frames = record.around := by
  suffices begun : ∀ origin ∈ (after version stream steps).records.map Record.origin,
      ∃ earlier < steps, (after version stream earlier).held = none ∧
        (after version stream earlier).state = origin.1 ∧
        (after version stream earlier).frames = origin.2.2 by
    exact fun record member => begun record.origin (List.mem_map_of_mem member)
  induction steps with
  | zero =>
      intro origin member
      cases member
  | succ steps ih =>
      have older : ∀ origin ∈ (after version stream steps).records.map Record.origin,
          ∃ earlier < steps + 1, (after version stream earlier).held = none ∧
            (after version stream earlier).state = origin.1 ∧
            (after version stream earlier).frames = origin.2.2 := by
        intro origin member
        obtain ⟨earlier, before, same⟩ := ih origin member
        exact ⟨earlier, Nat.lt_succ_of_lt before, same⟩
      rcases (steps_after version stream steps).origins with
        ⟨same, _⟩ | ⟨first, rest, count, free, _, begun, _⟩
      · rw [same]
        exact older
      · rw [begun]
        exact List.forall_mem_cons.mpr ⟨⟨steps, Nat.lt_succ_self steps, free, rfl, rfl⟩, older⟩

/-- The tables only grow, and what was filled does not change. -/
theorem grow_after (version : Version) (stream : List UInt8) (steps more : Nat) :
    Filled (after version stream steps).state.slots.toList
        (after version stream (steps + more)).state.slots.toList ∧
      (after version stream steps).state.interned.toList <+:
        (after version stream (steps + more)).state.interned.toList := by
  induction more with
  | zero => exact ⟨.refl _, List.prefix_rfl⟩
  | succ more ih =>
      obtain ⟨listed, tracked, _, _⟩ := invariants version stream (steps + more)
      obtain ⟨later, _, _, _⟩ := invariants version stream (steps + (more + 1))
      obtain ⟨slots, interned⟩ := (steps_after version stream (steps + more)).grow tracked
      rw [listed.slots, listed.interned] at ih
      rw [later.slots, later.interned]
      exact ⟨ih.1.trans slots, ih.2.trans interned⟩

/-- **Back-references find what was read.** Whatever the stream, and also after errors: the calls
of a reader are those of its sessions, every session is disciplined, its objects were begun where
the reader was, and its tables only grow. -/
theorem disciplined (version : Version) (stream : List UInt8) :
    (∀ count, ∃ steps, (after version stream steps).Idle ∧
      ((after version stream steps).results, (after version stream steps).state) =
        calls version count (State.start stream)) ∧
    ∀ steps, Disciplined (.ofVersion version) stream (after version stream steps) ∧
      (∀ record ∈ (after version stream steps).records, ∃ earlier < steps,
        (after version stream earlier).held = none ∧
        (after version stream earlier).state = record.before ∧
        (after version stream earlier).frames = record.around) ∧
      ∀ more, Filled (after version stream steps).state.slots.toList
          (after version stream (steps + more)).state.slots.toList ∧
        (after version stream steps).state.interned.toList <+:
          (after version stream (steps + more)).state.interned.toList := by
  refine ⟨exists_calls version stream, ?_⟩
  intro steps
  refine ⟨disciplined_after version stream steps, ?_, ?_⟩
  · exact exists_begun version stream steps
  · exact grow_after version stream steps

end Session

end PycListing.Marshal
