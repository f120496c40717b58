import PycListing.Proofs.Marshal.Record

/-! # What every step keeps

Each step of a session keeps the frames, the tables and the records together: the frames are those
of the objects being read, the slots and the interned strings are the values of the objects that
are complete, every object is what the descent finds at its place, and every place lies behind the
one before it. The tables only grow, and a slot that was filled keeps its value.
-/

namespace PycListing.Marshal

namespace Session

/-! ## What the descent finds -/

section Found

variable {layout : CodeLayout} {session : Session} {first : UInt8} {rest : List UInt8}

theorem found_of_reads {value : Value} {final : State}
    (room : session.frames.length < depthLimit) (bytes : session.state.input.rest = first :: rest)
    (found : Read.opening layout session.state.input.offset first
      { session.state with input := session.state.input.advance 1 } = .ok (.inl value) final) :
    (Read.objectAt layout session.frames.length).reader session.state = .ok value final := by
  rw [Read.objectAt_of_cons room bytes, Read.bind_of_ok found]
  rfl

theorem left_of_opens {frame : Frame} {final : State}
    (room : session.frames.length < depthLimit) (bytes : session.state.input.rest = first :: rest)
    (found : Read.opening layout session.state.input.offset first
      { session.state with input := session.state.input.advance 1 } = .ok (.inr frame) final) :
    (Read.objectAt layout session.frames.length).reader session.state =
      Read.left layout session.frames.length none frame final := by
  rw [Read.objectAt_of_cons room bytes, Read.bind_of_ok found]
  rfl

theorem failed_of_unread {error : Error} {final : State}
    (room : session.frames.length < depthLimit) (bytes : session.state.input.rest = first :: rest)
    (failed : Read.opening layout session.state.input.offset first
      { session.state with input := session.state.input.advance 1 } = .error error final) :
    (Read.objectAt layout session.frames.length).reader session.state = .error error final := by
  rw [Read.objectAt_of_cons room bytes, Read.bind_of_error failed]

end Found

/-! ## Frames and records -/

/-- The frames are those of the objects being read. -/
def Tracked (layout : CodeLayout) (session : Session) : Prop :=
  Tracks layout session.state session.held session.frames session.records

structure Listed (session : Session) : Prop where
  slots : session.state.slots.toList = slotValues session.records
  interned : session.state.interned.toList = internedValues session.records

theorem toList_slotted (first : UInt8) (content : Option Value) (slots : Array (Option Value)) :
    (Read.slotted first content slots).toList =
      slots.toList ++ if isFlagged first then [content] else [] := by
  unfold Read.slotted
  by_cases flagged : isFlagged first = true
  · rw [if_pos flagged, if_pos flagged, Array.toList_push]
  · rw [if_neg flagged, if_neg flagged, List.append_nil]

theorem tracked_fails (layout : CodeLayout) (session : Session) (error : Error) (after : State) :
    (session.fails error after).Tracked layout := by
  refine .of_shut _ _ fun record member => ?_
  obtain ⟨old, _, rfl⟩ := List.mem_map.mp member
  exact old.isReading_cutBy error

theorem Tracked.innermost {layout : CodeLayout} {session : Session} {frame : Frame}
    {outer : List Frame} (tracked : session.Tracked layout)
    (inner : session.frames = frame :: outer) :
    ∃ newer record older, session.records = newer ++ record :: older ∧
      (∀ other ∈ newer, other.isReading = false) ∧ record.isReading = true ∧
      Tracks layout session.state session.held (frame :: outer) (record :: older) :=
  Tracks.innermost (inner ▸ tracked)

/-- A container that is opened has the slot that its record is due. -/
theorem Listed.slot_of_opens {session : Session} (listed : session.Listed) (first : UInt8) :
    Read.slotOf first session.state.slots =
      slotAfter session.records ⟨session.state, first, session.frames, .reading⟩ := by
  unfold Read.slotOf slotAfter
  rw [← listed.slots, Array.length_toList]
  rfl

theorem Tracked.step {layout : CodeLayout} {session later : Session}
    (tracked : session.Tracked layout) (listed : session.Listed)
    (steps : Steps layout session later) : later.Tracked layout := by
  cases steps with
  | tooDeep => exact tracked_fails _ _ _ _
  | ends => exact tracked_fails _ _ _ _
  | unread => exact tracked_fails _ _ _ _
  | refuses => exact tracked_fails _ _ _ _
  | spoils => exact tracked_fails _ _ _ _
  | reads free room bytes found =>
      rw [Tracked, free] at tracked
      exact .past rfl (tracked.hold (found_of_reads room bytes found))
  | opens free room bytes found =>
      rw [Tracked, free] at tracked
      obtain ⟨_, _, slot, fresh, container⟩ := Read.opening_inr found
      unfold Tracked noting
      rw [free]
      exact .inside rfl rfl container (slot.trans (listed.slot_of_opens _)) (fresh.awaits layout)
        (left_of_opens room bytes found) tracked
  | returns holds none =>
      rw [Tracked, none] at tracked
      have shut := tracked.shut_of_nil
      unfold Tracked returns
      rw [none]
      exact .of_shut _ _ shut
  | takes holds inner accepted =>
      obtain ⟨newer, record, older, split, shut, reading, tracks⟩ := tracked.innermost inner
      rw [holds] at tracks
      unfold Tracked
      dsimp only
      rw [split]
      cases tracks with
      | past closed => rw [reading] at closed; cases closed
      | inside _ depth container slot awaits same others =>
          refine .append shut (.inside reading depth container slot ?_ ?_ others)
          · exact Read.awaits_of_accept awaits accepted
          · exact same.trans (Read.left_some_of_open accepted)
  | closes holds inner accepted finished =>
      obtain ⟨newer, record, older, split, shut, reading, tracks⟩ := tracked.innermost inner
      rw [holds] at tracks
      unfold Tracked completes
      dsimp only
      rw [split, completeNewest_append _ shut reading]
      cases tracks with
      | past closed => rw [reading] at closed; cases closed
      | inside _ depth container slot awaits same others =>
          refine .append shut (.past rfl (others.hold ?_))
          exact same.trans ((Read.left_some_of_complete accepted).trans finished)

theorem Listed.fails {session : Session} (listed : session.Listed) (error : Error) {after : State}
    (slots : after.slots = session.state.slots)
    (interned : after.interned = session.state.interned) :
    (session.fails error after).Listed where
  slots := by
    change after.slots.toList = slotValues (session.records.map (Record.cutBy error))
    rw [slots, slotValues_map_cutBy, listed.slots]
  interned := by
    change after.interned.toList = internedValues (session.records.map (Record.cutBy error))
    rw [interned, internedValues_map_cutBy, listed.interned]

theorem Listed.step {layout : CodeLayout} {session later : Session} (listed : session.Listed)
    (tracked : session.Tracked layout) (steps : Steps layout session later) : later.Listed := by
  cases steps with
  | tooDeep => exact listed.fails _ rfl rfl
  | ends => exact listed.fails _ rfl rfl
  | @unread first rest error final free room bytes failed =>
      obtain ⟨slots, interned⟩ := Read.opening_error failed
      constructor
      · change final.slots.toList = slotValues ((session.noting first).records.map _)
        rw [slotValues_map_cutBy, noting, slotValues_cons, slots, toList_slotted, listed.slots]
        rfl
      · change final.interned.toList = internedValues ((session.noting first).records.map _)
        rw [internedValues_map_cutBy, noting, internedValues_cons_of_isReading rfl, interned,
          listed.interned]
  | @reads first rest value final free room bytes found =>
      obtain ⟨slots, interned⟩ := Read.opening_inl found
      constructor
      · change final.slots.toList = slotValues (Record.complete value ⟨_, first, _, _⟩ :: _)
        rw [slotValues_cons, slots, toList_slotted, listed.slots]
        rfl
      · change final.interned.toList =
          internedValues (Record.complete value ⟨_, first, _, _⟩ :: _)
        have same :
            (Record.complete value ⟨session.state, first, session.frames, .reading⟩).interned =
              Read.announces .interned first := rfl
        rw [internedValues_cons, same, interned, ← listed.interned]
        by_cases announced : Read.announces .interned first = true
        · rw [if_pos announced, if_pos announced, Array.toList_push]
          rfl
        · rw [if_neg announced, if_neg announced, List.append_nil]
  | @opens first rest frame final free room bytes found =>
      obtain ⟨slots, interned, _, _, _⟩ := Read.opening_inr found
      constructor
      · change final.slots.toList = slotValues (⟨_, first, _, .reading⟩ :: _)
        rw [slotValues_cons, slots, toList_slotted, listed.slots]
        rfl
      · change final.interned.toList = internedValues (⟨_, first, _, .reading⟩ :: _)
        rw [internedValues_cons_of_isReading rfl, interned, listed.interned]
  | returns => exact ⟨listed.slots, listed.interned⟩
  | refuses holds inner failed =>
      obtain ⟨slots, interned⟩ := (Read.Keeps.accept _ _ _).of_error failed
      exact listed.fails _ slots interned
  | takes holds inner accepted =>
      obtain ⟨slots, interned⟩ := (Read.Keeps.accept _ _ _).of_ok accepted
      exact ⟨slots ▸ listed.slots, interned ▸ listed.interned⟩
  | spoils holds inner accepted failed =>
      obtain ⟨slots, interned⟩ := (Read.Keeps.accept _ _ _).of_ok accepted
      obtain ⟨_, same, kept⟩ := Read.finish_error failed
      exact listed.fails _ (same.trans slots) (kept.trans interned)
  | @closes _ frame outer pending middle final value holds inner accepted finished =>
      obtain ⟨newer, record, older, split, shut, reading, tracks⟩ := tracked.innermost inner
      obtain ⟨slots, interned⟩ := (Read.Keeps.accept _ _ _).of_ok accepted
      obtain ⟨assembled, _, same, kept, rfl⟩ := Read.finish_ok finished
      cases tracks with
      | past closed => rw [reading] at closed; cases closed
      | inside _ depth container slot awaits _ others =>
          have before : assembled.slots.toList = slotValues (newer ++ record :: older) := by
            rw [same, slots, listed.slots, split]
          have values : (completeNewest value session.records) =
              newer ++ record.complete value :: older := by
            rw [split, completeNewest_append value shut reading]
          constructor
          · change (Read.filled frame.slot value assembled).slots.toList =
              slotValues (completeNewest value session.records)
            rw [values, slotValues_complete, slot, ← before]
            cases slotAfter older record with
            | none => rfl
            | some index => exact Array.toList_setIfInBounds
          · change (Read.filled frame.slot value assembled).interned.toList =
              internedValues (completeNewest value session.records)
            rw [values, internedValues_complete value (container .interned), ← split,
              Read.filled_interned, kept, interned, listed.interned]

/-! ## Values of objects -/

/-- Every object is what the descent finds at its place. -/
def Agreed (layout : CodeLayout) (session : Session) : Prop :=
  ∀ record ∈ session.records, record.Agrees layout

theorem Agreed.fails {layout : CodeLayout} {session : Session} {error : Error} {after : State}
    (agreed : session.Agreed layout)
    (failed : ∀ record ∈ session.records, record.isReading = true →
      (Read.objectAt layout record.around.length).reader record.before = .error error after) :
    (session.fails error after).Agreed layout := by
  intro record member
  obtain ⟨old, present, rfl⟩ := List.mem_map.mp member
  exact (agreed old present).cutBy (failed old present)

/-- An object that is begun agrees with the descent as long as it is being read. -/
theorem Agreed.noting {layout : CodeLayout} {session : Session} (agreed : session.Agreed layout)
    (first : UInt8) : (session.noting first).Agreed layout :=
  List.forall_mem_cons.mpr ⟨trivial, agreed⟩

theorem Agreed.step {layout : CodeLayout} {session later : Session}
    (agreed : session.Agreed layout) (tracked : session.Tracked layout)
    (steps : Steps layout session later) : later.Agreed layout := by
  cases steps with
  | tooDeep free full =>
      rw [Tracked, free] at tracked
      exact agreed.fails (tracked.fails (Read.objectAt_of_full full _))
  | ends free room bytes =>
      rw [Tracked, free] at tracked
      exact agreed.fails (tracked.fails (Read.objectAt_of_nil room bytes))
  | @unread first _ _ _ free room bytes failed =>
      rw [Tracked, free] at tracked
      have cut := failed_of_unread room bytes failed
      refine (agreed.noting first).fails (List.forall_mem_cons.mpr ⟨fun _ => cut, ?_⟩)
      exact tracked.fails cut
  | reads free room bytes found =>
      exact List.forall_mem_cons.mpr ⟨⟨_, found_of_reads room bytes found⟩, agreed⟩
  | opens => exact agreed.noting _
  | returns => exact agreed
  | takes => exact agreed
  | refuses holds inner failed =>
      rw [Tracked, holds, inner] at tracked
      exact agreed.fails (tracked.fails_of_held (Read.left_some_of_error failed))
  | spoils holds inner accepted failed =>
      rw [Tracked, holds, inner] at tracked
      refine agreed.fails (tracked.fails_of_held ?_)
      exact (Read.left_some_of_complete accepted).trans failed
  | @closes _ _ _ _ _ _ value holds inner accepted finished =>
      obtain ⟨newer, record, older, split, shut, reading, tracks⟩ := tracked.innermost inner
      rw [holds] at tracks
      unfold Agreed at agreed ⊢
      rw [split, List.forall_mem_append, List.forall_mem_cons] at agreed
      unfold completes
      dsimp only
      rw [split, completeNewest_append value shut reading, List.forall_mem_append,
        List.forall_mem_cons]
      rcases agreed with ⟨newerAgree, _, olderAgree⟩
      refine ⟨newerAgree, ?_, olderAgree⟩
      cases tracks with
      | past closed => rw [reading] at closed; cases closed
      | inside _ depth container slot awaits same others =>
          have found := same.trans ((Read.left_some_of_complete accepted).trans finished)
          exact ⟨_, depth.symm ▸ found⟩

/-! ## Growth -/

theorem Steps.grow {layout : CodeLayout} {session later : Session}
    (steps : Steps layout session later) (tracked : session.Tracked layout) :
    Filled (slotValues session.records) (slotValues later.records) ∧
      internedValues session.records <+: internedValues later.records := by
  have cut : ∀ (error : Error) (final : State),
      Filled (slotValues session.records) (slotValues (session.fails error final).records) ∧
        internedValues session.records <+: internedValues (session.fails error final).records := by
    intro error final
    change Filled _ (slotValues (session.records.map (Record.cutBy error))) ∧
      _ <+: internedValues (session.records.map (Record.cutBy error))
    rw [slotValues_map_cutBy, internedValues_map_cutBy]
    exact ⟨.refl _, List.prefix_rfl⟩
  have noted : ∀ record : Record,
      Filled (slotValues session.records) (slotValues (record :: session.records)) ∧
        internedValues session.records <+: internedValues (record :: session.records) := by
    intro record
    rw [slotValues_cons, internedValues_cons]
    exact ⟨.append _ _, List.prefix_append _ _⟩
  cases steps with
  | tooDeep => exact cut _ _
  | ends => exact cut _ _
  | refuses => exact cut _ _
  | spoils => exact cut _ _
  | @unread first _ error =>
      change Filled _ (slotValues ((session.noting first).records.map (Record.cutBy error))) ∧
        _ <+: internedValues ((session.noting first).records.map (Record.cutBy error))
      rw [slotValues_map_cutBy, internedValues_map_cutBy]
      exact noted _
  | reads => exact noted _
  | opens => exact noted _
  | returns => exact ⟨.refl _, List.prefix_rfl⟩
  | takes => exact ⟨.refl _, List.prefix_rfl⟩
  | @closes _ _ _ _ _ _ value holds inner accepted finished =>
      obtain ⟨newer, record, older, split, shut, reading, tracks⟩ := tracked.innermost inner
      change Filled _ (slotValues (completeNewest value session.records)) ∧
        _ <+: internedValues (completeNewest value session.records)
      rw [split, completeNewest_append value shut reading, slotValues_complete]
      cases tracks with
      | past closed => rw [reading] at closed; cases closed
      | inside _ depth container slot awaits same others =>
          rw [internedValues_complete value (container .interned)]
          refine ⟨?_, List.prefix_rfl⟩
          cases due : slotAfter older record with
          | none => exact .refl _
          | some index => exact .set (slotValues_slotAfter reading due) value

/-! ## Places of objects -/

theorem exists_advance_of_opening (layout : CodeLayout) (first : UInt8) (state : State) :
    ∃ count, (Read.finalState (Read.opening layout state.input.offset first
      { state with input := state.input.advance 1 })).input = state.input.advance (1 + count) := by
  obtain ⟨count, _, moved⟩ := Read.Advances.opening layout state.input.offset first
    { state with input := state.input.advance 1 }
  exact ⟨count, moved.trans (Cursor.advance_advance _ _ _)⟩

/-- A step begins an object at the next byte, which it takes, or begins none. -/
theorem Steps.origins {layout : CodeLayout} {session later : Session}
    (steps : Steps layout session later) :
    later.records.map Record.origin = session.records.map Record.origin ∧
        (∃ count, later.state.input = session.state.input.advance count) ∨
      ∃ first rest count, session.held = none ∧ session.state.input.rest = first :: rest ∧
        later.records.map Record.origin =
          (session.state, first, session.frames) :: session.records.map Record.origin ∧
        later.state.input = session.state.input.advance (1 + count) := by
  cases steps with
  | tooDeep => exact .inl ⟨map_origin_cutBy _ _, 0, (Cursor.advance_zero _).symm⟩
  | ends => exact .inl ⟨map_origin_cutBy _ _, 0, (Cursor.advance_zero _).symm⟩
  | @unread first rest _ _ free room bytes failed =>
      obtain ⟨count, moved⟩ := exists_advance_of_opening layout first session.state
      rw [failed] at moved
      exact .inr ⟨first, rest, count, free, bytes, map_origin_cutBy _ _, moved⟩
  | @reads first rest _ _ free room bytes found =>
      obtain ⟨count, moved⟩ := exists_advance_of_opening layout first session.state
      rw [found] at moved
      exact .inr ⟨first, rest, count, free, bytes, map_origin_completeNewest _ _, moved⟩
  | @opens first rest _ _ free room bytes found =>
      obtain ⟨count, moved⟩ := exists_advance_of_opening layout first session.state
      rw [found] at moved
      exact .inr ⟨first, rest, count, free, bytes, rfl, moved⟩
  | returns => exact .inl ⟨rfl, 0, (Cursor.advance_zero _).symm⟩
  | refuses holds inner failed =>
      obtain ⟨count, _, moved⟩ := Read.Advances.accept _ _ _ session.state
      rw [failed] at moved
      exact .inl ⟨map_origin_cutBy _ _, count, moved⟩
  | takes holds inner accepted =>
      obtain ⟨count, _, moved⟩ := Read.Advances.accept _ _ _ session.state
      rw [accepted] at moved
      exact .inl ⟨rfl, count, moved⟩
  | @spoils _ _ _ _ middle _ _ holds inner accepted failed =>
      obtain ⟨count, _, moved⟩ := Read.Advances.accept _ _ _ session.state
      obtain ⟨more, _, movedMore⟩ := Read.Advances.finish _ _ middle
      rw [accepted] at moved
      rw [failed] at movedMore
      refine .inl ⟨map_origin_cutBy _ _, count + more, movedMore.trans ?_⟩
      exact (congrArg (Cursor.advance · more) moved).trans (Cursor.advance_advance _ _ _)
  | @closes _ _ _ _ middle _ _ holds inner accepted finished =>
      obtain ⟨count, _, moved⟩ := Read.Advances.accept _ _ _ session.state
      obtain ⟨more, _, movedMore⟩ := Read.Advances.finish _ _ middle
      rw [accepted] at moved
      rw [finished] at movedMore
      refine .inl ⟨map_origin_completeNewest _ _, count + more, movedMore.trans ?_⟩
      exact (congrArg (Cursor.advance · more) moved).trans (Cursor.advance_advance _ _ _)

/-- Each object was begun at its first byte, behind those begun before it. -/
structure Placed (stream : List UInt8) (session : Session) : Prop where
  rest : session.state.input.rest = stream.drop session.state.input.offset
  first : ∀ origin ∈ session.records.map Record.origin,
    origin.1.input.offset < session.state.input.offset ∧
      stream[origin.1.input.offset]? = some origin.2.1
  order : (session.records.map Record.origin).Pairwise
    fun newer older => older.1.input.offset < newer.1.input.offset

theorem rest_advance {stream : List UInt8} {input : Cursor}
    (rest : input.rest = stream.drop input.offset) (count : Nat) :
    (input.advance count).rest = stream.drop (input.advance count).offset := by
  rw [Cursor.advance, rest, List.drop_drop]

theorem Placed.step {layout : CodeLayout} {stream : List UInt8} {session later : Session}
    (placed : session.Placed stream) (steps : Steps layout session later) :
    later.Placed stream := by
  rcases steps.origins with ⟨same, count, moved⟩ | ⟨first, rest, count, _, bytes, begun, moved⟩
  · refine ⟨moved ▸ rest_advance placed.rest count, ?_, same ▸ placed.order⟩
    rw [same, moved]
    intro origin member
    obtain ⟨before, found⟩ := placed.first origin member
    exact ⟨Nat.lt_of_lt_of_le before (Nat.le_add_right _ _), found⟩
  · have here : stream[session.state.input.offset]? = some first := by
      rw [← List.head?_drop, ← placed.rest, bytes, List.head?_cons]
    refine ⟨moved ▸ rest_advance placed.rest _, ?_, ?_⟩
    · rw [begun, moved]
      refine List.forall_mem_cons.mpr ⟨⟨?_, here⟩, fun origin member => ?_⟩
      · change session.state.input.offset < session.state.input.offset + (1 + count)
        omega
      · obtain ⟨before, found⟩ := placed.first origin member
        exact ⟨Nat.lt_of_lt_of_le before (Nat.le_add_right _ _), found⟩
    · rw [begun]
      apply List.pairwise_cons.mpr
      exact ⟨fun origin member => (placed.first origin member).1, placed.order⟩

end Session

end PycListing.Marshal
