import PycListing.Proofs.Code.Within
import PycListing.Proofs.Marshal.Encoding
import PycListing.Proofs.Marshal.RoundTrip
import PycListing.Proofs.Marshal.Session
import PycListing.Proofs.Marshal.Footprint
import PycListing.Proofs.Fallible
import PycListing.Proofs.LittleEndian

/-! # Units fit their version

The layout of a version bounds the counters of its units and tells which of their fields there
are. A reader comes back only with values all of whose units fit the layout, also where a unit
came into the value by a reference (`PycListing.Marshal.fits_of_mem_calls`). The invariant is that
the tables, the open containers and the results hold such values only
(`PycListing.Marshal.Session.Sound`).
-/

namespace PycListing.Marshal

/-! ## Values all of whose units fit -/

/-- Every unit that lies within a value fits a layout. -/
def UnitsFit (layout : CodeLayout) (value : Value) : Prop :=
  ∀ unit, Value.Within (.code unit) value → CodeUnit.Fits layout unit

variable {layout : CodeLayout}

theorem UnitsFit.part {whole part : Value} (fit : UnitsFit layout whole) (member : part ∈ whole.parts) :
    UnitsFit layout part :=
  fun unit within => fit unit (.part member within)

theorem UnitsFit.of_parts {whole : Value} (noUnit : whole.unit? = none)
    (parts : ∀ part ∈ whole.parts, UnitsFit layout part) : UnitsFit layout whole := by
  intro unit within
  rcases Value.within_iff.mp within with rfl | ⟨part, member, inPart⟩
  · cases noUnit
  · exact parts part member unit inPart

theorem UnitsFit.code {unit : CodeUnit} (fits : CodeUnit.Fits layout unit)
    (consts : ∀ value ∈ unit.consts, UnitsFit layout value) : UnitsFit layout (.code unit) := by
  intro inner within
  rcases Value.within_iff.mp within with same | ⟨part, member, inPart⟩
  · cases same
    exact fits
  · exact consts part member inner inPart

/-- A value without parts that is no unit. -/
def IsAtom (value : Value) : Prop :=
  value.unit? = none ∧ value.parts = []

theorem IsAtom.unitsFit {value : Value} (atom : IsAtom value) : UnitsFit layout value := by
  refine .of_parts atom.1 ?_
  rw [atom.2]
  exact List.forall_mem_nil _

theorem unitsFit_wrap {kind : SequenceKind} {items : List Value}
    (fit : ∀ item ∈ items, UnitsFit layout item) : UnitsFit layout (kind.wrap items) := by
  cases kind <;> exact .of_parts rfl fit

theorem unitsFit_dict {pairs : List (Value × Value)}
    (fit : ∀ pair ∈ pairs, UnitsFit layout pair.1 ∧ UnitsFit layout pair.2) :
    UnitsFit layout (.dict pairs) := by
  refine .of_parts rfl fun part member => ?_
  obtain ⟨pair, present, rfl | rfl⟩ := Value.mem_parts_dict.mp member
  · exact (fit pair present).1
  · exact (fit pair present).2

/-! ## What readers give -/

namespace Read

variable {α β : Type}

/-- A reader whose result, if it comes back with one, has some property. -/
def Gives (reader : Read α) (good : α → Prop) : Prop :=
  ∀ state value after, reader state = .ok value after → good value

theorem Gives.pure {good : α → Prop} {value : α} (holds : good value) :
    Gives (Pure.pure value) good := by
  intro state found after result
  cases result
  exact holds

theorem Gives.bind {reader : Read α} {next : α → Read β} {middle : α → Prop} {good : β → Prop}
    (first : Gives reader middle) (second : ∀ value, middle value → Gives (next value) good) :
    Gives (reader >>= next) good := by
  intro state value final result
  obtain ⟨found, after, read, rest⟩ := bind_eq_ok result
  exact second found (first state found after read) after value final rest

theorem Gives.trivial (reader : Read α) : Gives reader fun _ => True :=
  fun _ _ _ _ => True.intro

theorem Gives.bind_right {reader : Read α} {next : α → Read β} {good : β → Prop}
    (second : ∀ value, Gives (next value) good) : Gives (reader >>= next) good :=
  .bind (.trivial reader) fun value _ => second value

theorem Gives.map {reader : Read α} {f : α → β} {good : β → Prop} (holds : ∀ value, good (f value)) :
    Gives (f <$> reader) good := by
  rw [map_eq_pure_bind]
  exact .bind_right fun value => .pure (holds value)

theorem Gives.internedContent (era : Era) : Gives (Read.internedContent era) IsAtom := by
  refine .bind_right fun count => ?_
  cases era with
  | legacy => exact .map fun _ => ⟨rfl, rfl⟩
  | modern => exact .map fun _ => ⟨rfl, rfl⟩

/-- A scalar that is no reference holds nothing. -/
theorem Gives.scalar (era : Era) (start : Nat) {tag : ScalarTag} (other : tag ≠ .reference)
    (notInterned : tag ≠ .internedReference) : Gives (Read.scalar era start tag) IsAtom := by
  cases tag with
  | null => exact .pure ⟨rfl, rfl⟩
  | none => exact .pure ⟨rfl, rfl⟩
  | bool => exact .pure ⟨rfl, rfl⟩
  | stopIteration => exact .pure ⟨rfl, rfl⟩
  | ellipsis => exact .pure ⟨rfl, rfl⟩
  | int32 => exact .map fun _ => ⟨rfl, rfl⟩
  | int64 => exact .map fun _ => ⟨rfl, rfl⟩
  | long => exact .bind_right fun _ => .bind_right fun _ => .pure ⟨rfl, rfl⟩
  | floatText => exact .map fun _ => ⟨rfl, rfl⟩
  | floatBits => exact .map fun _ => ⟨rfl, rfl⟩
  | complexText => exact .bind_right fun _ => .bind_right fun _ => .pure ⟨rfl, rfl⟩
  | complexBits => exact .bind_right fun _ => .bind_right fun _ => .pure ⟨rfl, rfl⟩
  | bytes => exact .bind_right fun _ => .map fun _ => ⟨rfl, rfl⟩
  | interned =>
      rw [Read.scalar, internedString_eq]
      refine .bind (.internedContent era) fun value atom => ?_
      exact .bind_right fun _ => .pure atom
  | internedReference => exact absurd rfl notInterned
  | text form => exact .bind_right fun _ => .map fun _ => ⟨rfl, rfl⟩
  | reference => exact absurd rfl other

theorem Gives.failMalformed {good : α → Prop} (offset : Nat) (defect : Defect) :
    Gives (Read.failMalformed offset defect : Read α) good :=
  fun _ _ _ result => nomatch result

/-! ## Counters -/

/-- A counter of a layout, which fits its width. -/
def FitsCounter (layout : CodeLayout) (counter : UInt32) : Prop :=
  counter.toNat < 256 ^ storedWidth layout

theorem Gives.number (width : Nat) : Gives (Read.number width) fun value => value < 256 ^ width := by
  intro state value after result
  unfold Read.number at result
  split at result
  · rename_i found rest taken
    cases result
    rw [Cursor.takeNumber, Cursor.take_eq] at taken
    split at taken
    · rename_i enough
      cases taken
      have small := littleEndian_lt (state.input.rest.take width)
      rwa [List.length_take_of_le enough] at small
    · cases taken
  · cases result

theorem Gives.counter (layout : CodeLayout) : Gives (Read.counter layout) (FitsCounter layout) := by
  have width : layout.counterWidth = storedWidth layout := by cases layout <;> rfl
  rw [Read.counter, map_eq_pure_bind, width]
  refine .bind (.number _) fun value small => .pure ?_
  rw [FitsCounter, Nat.toUInt32_eq, UInt32.toNat_ofNat']
  exact Nat.lt_of_le_of_lt (Nat.mod_le _ _) small

theorem fitsCounter_zero (layout : CodeLayout) : FitsCounter layout 0 :=
  Nat.pow_pos (by decide)

end Read

/-- Counters that fit a layout, with none of keyword-only parameters in a legacy one. -/
structure Counters.Fit (layout : CodeLayout) (counters : Counters) : Prop where
  kwOnly : layout ≠ .modern → counters.kwOnlyArgCount = 0
  fits : ∀ counter ∈ [counters.argCount, counters.localCount, counters.stackSize, counters.flags],
    Read.FitsCounter layout counter

theorem Read.Gives.counters (layout : CodeLayout) :
    Gives (Read.counters layout) (Counters.Fit layout) := by
  refine .bind (.counter layout) fun argCount first => ?_
  have others : ∀ kwOnlyArgCount : UInt32, (layout ≠ .modern → kwOnlyArgCount = 0) → Gives (do
      let localCount ← Read.counter layout
      let stackSize ← Read.counter layout
      let flags ← Read.counter layout
      Pure.pure { argCount, kwOnlyArgCount, localCount, stackSize, flags : Counters })
        (Counters.Fit layout) := by
    intro kwOnlyArgCount kwOnly
    refine .bind (.counter layout) fun localCount second => .bind (.counter layout)
      fun stackSize third => .bind (.counter layout) fun flags fourth => .pure ⟨kwOnly, ?_⟩
    simp only [List.forall_mem_cons]
    exact ⟨first, second, third, fourth, List.forall_mem_nil _⟩
  have none : Gives (Pure.pure 0 : Read UInt32) (· = 0) := .pure rfl
  cases layout with
  | modern => exact .bind_right fun kwOnly => others kwOnly fun legacy => absurd rfl legacy
  | long => exact none.bind fun _ zero => others _ fun _ => zero
  | short => exact none.bind fun _ zero => others _ fun _ => zero

/-! ## Open containers -/

/-- The part of a container that has been read fits a layout. -/
def Pending.Sound (layout : CodeLayout) : Pending → Prop
  | .sequence _ _ items => ∀ item ∈ items, UnitsFit layout item
  | .dict key pairs => (∀ value ∈ key, UnitsFit layout value) ∧
      ∀ pair ∈ pairs, UnitsFit layout pair.1 ∧ UnitsFit layout pair.2
  | .unit _ counters fields firstLine => counters.Fit layout ∧
      (∀ field ∈ fields, UnitsFit layout field) ∧ ∀ line ∈ firstLine, Read.FitsCounter layout line

theorem forall_mem_absent {α : Type} {good : α → Prop} : ∀ value ∈ (none : Option α), good value :=
  nofun

theorem forall_mem_present {α : Type} {good : α → Prop} {value : α} (holds : good value) :
    ∀ found ∈ some value, good found := by
  rintro _ ⟨⟩
  exact holds

namespace Read

theorem Gives.accept {value : Value} {pending : Pending} (fit : UnitsFit layout value)
    (sound : pending.Sound layout) :
    Gives (Read.accept layout value pending) fun result => result.1.Sound layout := by
  cases pending with
  | sequence kind declared items => exact .pure (Array.forall_mem_push.mpr ⟨fit, sound⟩)
  | dict key pairs =>
      obtain ⟨keyFits, pairsFit⟩ := sound
      cases key with
      | some key =>
          have both : UnitsFit layout key ∧ UnitsFit layout value := ⟨keyFits key rfl, fit⟩
          have more : ∀ pair ∈ pairs.push (key, value),
              UnitsFit layout pair.1 ∧ UnitsFit layout pair.2 :=
            Array.forall_mem_push.mpr ⟨both, pairsFit⟩
          exact .pure ⟨forall_mem_absent, more⟩
      | none =>
          have isKey : ∀ found ∈ some value, UnitsFit layout found := forall_mem_present fit
          cases value with
          | null => exact .pure ⟨keyFits, pairsFit⟩
          | _ => exact .pure ⟨isKey, pairsFit⟩
  | unit start counters fields firstLine =>
      obtain ⟨counters, fields, line⟩ := sound
      rw [Read.accept]
      split
      · refine .bind (.counter layout) fun found fits => .pure ⟨counters, ?_, ?_⟩
        · exact Array.forall_mem_push.mpr ⟨fit, fields⟩
        · exact forall_mem_present fits
      · exact .pure ⟨counters, Array.forall_mem_push.mpr ⟨fit, fields⟩, line⟩

end Read

/-! ## Complete containers -/

theorem Field.unitsFit_of_items {field : Field} {value : Value} {items : List Value}
    (taken : field.items value = .ok items) (fit : UnitsFit layout value) :
    ∀ item ∈ items, UnitsFit layout item := by
  cases value with
  | tuple =>
      cases taken
      exact fun _ member => fit.part member
  | list =>
      cases taken
      exact fun _ member => fit.part member
  | _ => cases taken

/-- Fields of a layout make a unit that fits it, with constants that do. -/
theorem Fields.unitsFit_of_toUnit {values : List Value} {fields : Fields} {counters : Counters}
    {firstLine : UInt32} {unit : CodeUnit} (listed : Fields.ofList? layout values = some fields)
    (made : fields.toUnit layout.era counters firstLine = .ok unit) (counted : counters.Fit layout)
    (line : Read.FitsCounter layout firstLine) (fit : ∀ value ∈ values, UnitsFit layout value) :
    UnitsFit layout (.code unit) := by
  obtain ⟨code, _, made⟩ := except_bind_eq_ok made
  obtain ⟨consts, areConsts, made⟩ := except_bind_eq_ok made
  obtain ⟨names, _, made⟩ := except_bind_eq_ok made
  obtain ⟨varnames, _, made⟩ := except_bind_eq_ok made
  obtain ⟨freevars, areFreevars, made⟩ := except_bind_eq_ok made
  obtain ⟨cellvars, areCellvars, made⟩ := except_bind_eq_ok made
  obtain ⟨filename, _, made⟩ := except_bind_eq_ok made
  obtain ⟨name, _, made⟩ := except_bind_eq_ok made
  obtain ⟨lineTable, _, made⟩ := except_bind_eq_ok made
  cases made
  have stored : fields.consts ∈ values ∧
      (layout = .short false → fields.freevars = .tuple [] ∧ fields.cellvars = .tuple []) := by
    unfold Fields.ofList? at listed
    split at listed
    · rename_i closures
      cases listed
      refine ⟨by simp only [List.mem_cons, true_or, or_true], ?_⟩
      rintro rfl
      cases closures
    · cases listed
      exact ⟨by simp only [List.mem_cons, true_or, or_true], fun _ => ⟨rfl, rfl⟩⟩
    · cases listed
  refine .code ⟨?_, counted.kwOnly, fun earliest => ?_, ?_⟩ ?_
  · cases layout <;> rfl
  · obtain ⟨noFree, noCell⟩ := stored.2 earliest
    rw [noFree] at areFreevars
    rw [noCell] at areCellvars
    cases areFreevars
    cases areCellvars
    exact ⟨rfl, rfl⟩
  · have others := counted.fits
    simp only [List.forall_mem_cons] at others ⊢
    obtain ⟨argCount, localCount, stackSize, flags, _⟩ := others
    exact ⟨argCount, localCount, stackSize, flags, line, List.forall_mem_nil _⟩
  · exact Field.unitsFit_of_items areConsts (fit _ stored.1)

namespace Read

theorem Gives.assemble {pending : Pending} (sound : pending.Sound layout) :
    Gives (Read.assemble layout pending) (UnitsFit layout) := by
  cases pending with
  | sequence kind declared items =>
      exact .pure (unitsFit_wrap fun item member => sound item (Array.mem_toList_iff.mp member))
  | dict key pairs =>
      exact .pure (unitsFit_dict fun pair member => sound.2 pair (Array.mem_toList_iff.mp member))
  | unit start counters fields firstLine =>
      obtain ⟨counted, fit, line⟩ := sound
      have lineFits : FitsCounter layout (firstLine.getD 0) := by
        cases firstLine with
        | none => exact fitsCounter_zero layout
        | some found => exact line found rfl
      rw [Read.assemble]
      split
      · exact .failMalformed _ _
      · rename_i listed
        split
        · rename_i made
          refine .pure (Fields.unitsFit_of_toUnit listed made counted lineFits ?_)
          exact fun value member => fit value (Array.mem_toList_iff.mp member)
        · exact .failMalformed _ _

end Read

/-! ## Tables -/

/-- What can be referred to fits a layout. -/
structure State.Sound (layout : CodeLayout) (state : State) : Prop where
  slots : ∀ value, some value ∈ state.slots → UnitsFit layout value
  interned : ∀ value ∈ state.interned, UnitsFit layout value

namespace State.Sound

variable {state after : State} {value : Value}

theorem of_eq (sound : state.Sound layout) (slots : after.slots = state.slots)
    (interned : after.interned = state.interned) : after.Sound layout :=
  ⟨slots ▸ sound.slots, interned ▸ sound.interned⟩

/-- The tables stay sound with a slot that is empty or holds a value that fits. -/
theorem slotted (sound : state.Sound layout) {first : UInt8} {content : Option Value}
    (slots : after.slots = Read.slotted first content state.slots)
    (interned : ∀ value ∈ after.interned, UnitsFit layout value)
    (fit : ∀ value ∈ content, UnitsFit layout value) : after.Sound layout := by
  refine ⟨?_, interned⟩
  rw [slots]
  exact Read.forall_mem_slotted sound.slots fit

theorem filled (sound : state.Sound layout) (fit : UnitsFit layout value) (slot : Option Nat) :
    (Read.filled slot value state).Sound layout :=
  ⟨Read.forall_mem_filled sound.slots fit slot, by
    rw [Read.filled_interned]
    exact sound.interned⟩

end State.Sound

namespace Read

theorem unitsFit_of_scalar {start : Nat} {tag : ScalarTag} {state after : State} {value : Value}
    (result : scalar layout.era start tag state = .ok value after) (sound : state.Sound layout) :
    UnitsFit layout value := by
  by_cases byIndex : tag = .reference
  · subst byIndex
    exact sound.slots value (mem_slots_of_reference result)
  · by_cases byPlace : tag = .internedReference
    · subst byPlace
      exact sound.interned value (mem_interned_of_reference result)
    · exact (Gives.scalar layout.era start byIndex byPlace _ _ _ result).unitsFit

/-! ## What follows a first byte -/

/-- An object that is complete at once fits if what it can refer to does. -/
theorem unitsFit_of_opening {start : Nat} {first : UInt8} {state after : State} {value : Value}
    (result : opening layout start first state = .ok (.inl value) after)
    (sound : state.Sound layout) : UnitsFit layout value := by
  unfold opening at result
  rw [bind_of_ok (reserveFor_eq first state)] at result
  have reserved : State.Sound layout { state with slots := slotted first none state.slots } :=
    sound.slotted rfl sound.interned forall_mem_absent
  cases known : Tag.ofByte? (withoutFlag first) with
  | none =>
      rw [known] at result
      cases result
  | some tag =>
      rw [known] at result
      cases tag with
      | scalar tag =>
          obtain ⟨found, settled, completed, same⟩ := bind_eq_ok result
          cases same
          obtain ⟨found, scanned, read, rest⟩ := bind_eq_ok completed
          rw [bind_of_ok (settle_eq _ _ _)] at rest
          cases rest
          exact unitsFit_of_scalar read reserved
      | sequence kind form =>
          obtain ⟨declared, measured, _, rest⟩ := bind_eq_ok result
          by_cases empty : declared = 0
          · simp only [empty, if_true] at rest
            obtain ⟨found, settled, finished, same⟩ := bind_eq_ok rest
            cases same
            obtain ⟨assembled, made, _⟩ := finish_ok finished
            cases made
            exact unitsFit_wrap (List.forall_mem_nil _)
          · simp only [empty, if_false] at rest
            cases rest
      | dict => cases result
      | unit =>
          obtain ⟨counters, counted, _, same⟩ := bind_eq_ok result
          cases same

/-- A container that is opened holds nothing yet but the counters of a unit, which fit. -/
theorem sound_of_opening {start : Nat} {first : UInt8} {state after : State} {frame : Frame}
    (result : opening layout start first state = .ok (.inr frame) after) :
    frame.pending.Sound layout := by
  unfold opening at result
  rw [bind_of_ok (reserveFor_eq first state)] at result
  cases known : Tag.ofByte? (withoutFlag first) with
  | none =>
      rw [known] at result
      cases result
  | some tag =>
      rw [known] at result
      cases tag with
      | scalar tag =>
          obtain ⟨found, settled, _, same⟩ := bind_eq_ok result
          cases same
      | sequence kind form =>
          obtain ⟨declared, measured, _, rest⟩ := bind_eq_ok result
          by_cases empty : declared = 0
          · simp only [empty, if_true] at rest
            obtain ⟨found, settled, _, same⟩ := bind_eq_ok rest
            cases same
          · simp only [empty, if_false] at rest
            cases rest
            exact Array.forall_mem_empty _
      | dict =>
          cases result
          exact ⟨forall_mem_absent, Array.forall_mem_empty _⟩
      | unit =>
          obtain ⟨counted, middle, read, same⟩ := bind_eq_ok result
          cases same
          exact ⟨Gives.counters layout _ _ _ read, Array.forall_mem_empty _,
            forall_mem_absent⟩

end Read

/-! ## Sessions -/

/-- **The invariant.** Whatever a session holds fits a layout: what can be referred to, what the
open containers have, the object to be handed on, and the results. -/
structure Session.Sound (layout : CodeLayout) (session : Session) : Prop where
  state : session.state.Sound layout
  frames : ∀ frame ∈ session.frames, frame.pending.Sound layout
  held : ∀ value ∈ session.held, UnitsFit layout value
  results : ∀ value, .ok value ∈ session.results → UnitsFit layout value

namespace Session

theorem sound_start (stream : List UInt8) : (start stream).Sound layout where
  state := ⟨fun _ absent => absurd absent (Array.not_mem_empty _), Array.forall_mem_empty _⟩
  frames := List.forall_mem_nil _
  held := forall_mem_absent
  results := fun _ absent => nomatch absent

namespace Sound

variable {session : Session} {final : State}

theorem fails (sound : session.Sound layout) (error : Error) (tables : final.Sound layout) :
    (session.fails error final).Sound layout where
  state := tables
  frames := List.forall_mem_nil _
  held := forall_mem_absent
  results := fun value member => by
    rcases List.mem_cons.mp member with same | before
    · cases same
    · exact sound.results value before

theorem completes (sound : session.Sound layout) {value : Value} {frames : List Frame}
    (tables : final.Sound layout) (fit : UnitsFit layout value) (remain : frames ⊆ session.frames) :
    (session.completes value frames final).Sound layout where
  state := tables
  frames := fun frame member => sound.frames frame (remain member)
  held := forall_mem_present fit
  results := sound.results

theorem step {later : Session} (sound : session.Sound layout) (steps : Steps layout session later) :
    later.Sound layout := by
  have begun (first : UInt8) : (session.noting first).Sound layout :=
    ⟨sound.state, sound.frames, sound.held, sound.results⟩
  cases steps with
  | tooDeep => exact sound.fails _ sound.state
  | ends => exact sound.fails _ sound.state
  | @unread first _ _ _ _ _ _ failed =>
      obtain ⟨slots, interned⟩ := Read.opening_error failed
      refine (begun first).fails _ (sound.state.slotted slots ?_ forall_mem_absent)
      exact interned ▸ sound.state.interned
  | @reads first _ value _ _ _ _ found =>
      obtain ⟨slots, interned⟩ := Read.opening_inl found
      have fit : UnitsFit layout value := Read.unitsFit_of_opening found
        (sound.state.of_eq rfl rfl)
      refine (begun first).completes (sound.state.slotted slots ?_ ?_) fit (List.Subset.refl _)
      · rw [interned]
        split
        · exact Array.forall_mem_push.mpr ⟨fit, sound.state.interned⟩
        · exact sound.state.interned
      · exact forall_mem_present fit
  | @opens first _ frame final free _ _ found =>
      obtain ⟨slots, interned, _⟩ := Read.opening_inr found
      refine ⟨sound.state.slotted slots ?_ forall_mem_absent, ?_, sound.held,
        sound.results⟩
      · exact interned ▸ sound.state.interned
      · exact List.forall_mem_cons.mpr ⟨Read.sound_of_opening found, sound.frames⟩
  | @returns value holds none =>
      refine ⟨sound.state, sound.frames, forall_mem_absent, fun other member => ?_⟩
      rcases List.mem_cons.mp member with same | before
      · cases same
        exact sound.held value holds
      · exact sound.results other before
  | refuses holds inner failed =>
      obtain ⟨slots, interned⟩ := (Read.Keeps.accept _ _ _).of_error failed
      exact sound.fails _ (sound.state.of_eq slots interned)
  | @takes value frame outer pending final holds inner accepted =>
      obtain ⟨slots, interned⟩ := (Read.Keeps.accept _ _ _).of_ok accepted
      have frames := sound.frames
      rw [inner, List.forall_mem_cons] at frames
      have grown : pending.Sound layout :=
        Read.Gives.accept (sound.held value holds) frames.1 _ _ _ accepted
      exact ⟨sound.state.of_eq slots interned, List.forall_mem_cons.mpr ⟨grown, frames.2⟩,
        forall_mem_absent, sound.results⟩
  | spoils holds inner accepted failed =>
      obtain ⟨slots, interned⟩ := (Read.Keeps.accept _ _ _).of_ok accepted
      obtain ⟨_, same, kept⟩ := Read.finish_error failed
      exact sound.fails _ (sound.state.of_eq (same.trans slots) (kept.trans interned))
  | @closes value frame outer pending middle final assembled holds inner accepted finished =>
      obtain ⟨slots, interned⟩ := (Read.Keeps.accept _ _ _).of_ok accepted
      obtain ⟨before, made, same, kept, rfl⟩ := Read.finish_ok finished
      have frames := sound.frames
      rw [inner, List.forall_mem_cons] at frames
      have full : pending.Sound layout :=
        Read.Gives.accept (sound.held value holds) frames.1 _ _ _ accepted
      have fit : UnitsFit layout assembled := Read.Gives.assemble full _ _ _ made
      have tables : before.Sound layout :=
        sound.state.of_eq (same.trans slots) (kept.trans interned)
      refine sound.completes (tables.filled fit _) fit ?_
      rw [inner]
      exact List.subset_cons_self _ _

end Sound

theorem sound_after (version : Version) (stream : List UInt8) (steps : Nat) :
    (after version stream steps).Sound (.ofVersion version) :=
  after_induction (sound_start stream) Sound.step steps

end Session

/-! ## Versions -/

/-- A version that came before another one. -/
def Precedes (version : Version) (major minor : UInt8) : Prop :=
  version.major < major ∨ version.major = major ∧ version.minor < minor

theorem atLeast_eq_false {version : Version} {major minor : UInt8}
    (before : Precedes version major minor) : version.atLeast major minor = false := by
  simp only [Precedes, UInt8.lt_iff_toNat_lt, ← UInt8.toNat_inj] at before
  simp only [Version.atLeast, GT.gt, GE.ge, UInt8.lt_iff_toNat_lt, UInt8.le_iff_toNat_le,
    Bool.or_eq_false_iff, Bool.and_eq_false_iff, decide_eq_false_iff_not, beq_eq_false_iff_ne,
    ne_eq, ← UInt8.toNat_inj]
  omega

namespace CodeLayout

variable {version : Version}

theorem ofVersion_ne_modern (legacy : version.major < 3) : ofVersion version ≠ .modern := by
  have before : Precedes version 3 0 := .inl legacy
  simp only [ofVersion, atLeast_eq_false before, Bool.false_eq_true, if_false]
  split <;> simp only [ne_eq, reduceCtorEq, not_false_eq_true]

theorem ofVersion_eq_short (before : Precedes version 2 3) :
    ofVersion version = .short (version.atLeast 2 1) := by
  have legacy : Precedes version 3 0 := by
    simp only [Precedes, UInt8.lt_iff_toNat_lt, ← UInt8.toNat_inj, UInt8.reduceToNat] at before ⊢
    omega
  simp only [ofVersion, atLeast_eq_false legacy, atLeast_eq_false before, Bool.false_eq_true,
    if_false]

theorem ofVersion_eq_earliest (before : Precedes version 2 1) :
    ofVersion version = .short false := by
  have short : Precedes version 2 3 := by
    simp only [Precedes, UInt8.lt_iff_toNat_lt, ← UInt8.toNat_inj, UInt8.reduceToNat] at before ⊢
    omega
  rw [ofVersion_eq_short short, atLeast_eq_false before]

end CodeLayout

/-- A unit as a version can have written it. Keyword-only parameters came with 3.0, variables of
closures with 2.1, and counters of more than 16 bits with 2.3. -/
structure CodeUnit.FitsVersion (version : Version) (unit : CodeUnit) : Prop where
  era : unit.era = version.era
  kwOnly : version.major < 3 → unit.kwOnlyArgCount = 0
  closures : Precedes version 2 1 → unit.freevars = [] ∧ unit.cellvars = []
  counters : Precedes version 2 3 → ∀ counter ∈ [unit.argCount, unit.localCount, unit.stackSize,
    unit.flags, unit.firstLine], counter.toNat < 2 ^ 16

theorem CodeUnit.Fits.fitsVersion {version : Version} {unit : CodeUnit}
    (fits : CodeUnit.Fits (.ofVersion version) unit) : CodeUnit.FitsVersion version unit where
  era := by
    rw [fits.era, ← CodeLayout.era_ofVersion]
    cases CodeLayout.ofVersion version <;> rfl
  kwOnly legacy := fits.kwOnly (CodeLayout.ofVersion_ne_modern legacy)
  closures before := fits.closures (CodeLayout.ofVersion_eq_earliest before)
  counters before := by
    have small := fits.counters
    rw [CodeLayout.ofVersion_eq_short before] at small
    exact small

/-- **Units fit their version.** However often a reader of a stream is asked for an object, also
after it failed, each unit that lies within a value it comes back with fits the version, wherever
in the value the unit lies and however it came there. -/
theorem fits_of_mem_calls {version : Version} {stream : List UInt8} {count : Nat} {value : Value}
    (returned : .ok value ∈ (calls version count (State.start stream)).1) {unit : CodeUnit}
    (within : Value.Within (.code unit) value) : CodeUnit.FitsVersion version unit := by
  obtain ⟨steps, _, same⟩ := Session.exists_calls version stream count
  have sound := Session.sound_after version stream steps
  rw [← same] at returned
  exact (sound.results value returned unit within).fitsVersion

/-- A unit of the earliest layout, as it is stored behind its first byte. -/
def earlyUnit : CodeUnit :=
  { CodeUnit.blank .legacy "f" with argCount := 2, firstLine := 7 }

def earlyUnitBytes : List UInt8 :=
  [2, 0, 0, 0, 0, 0, 0, 0] ++
    (([0x73, 0, 0, 0, 0] ++ ([0x29, 0] ++ ([0x29, 0] ++ ([0x29, 0] ++
      ([0x73, 0, 0, 0, 0] ++ ([0x73, 1, 0, 0, 0, 0x66] ++ [])))))) ++
    ([7, 0] ++ [0x73, 0, 0, 0, 0]))

theorem written_earlyUnit (levels : Nat) (tables : Tables) :
    Written (.short false) (levels + 1) tables (.payload 'c' (.code earlyUnit)) earlyUnitBytes
      tables := by
  let fields : Fields :=
    ⟨.bytes [], .tuple [], .tuple [], .tuple [], .tuple [], .tuple [], .bytes [], .bytes [0x66],
      .bytes []⟩
  have noTexts : StoresTexts (.tuple []) [] := ⟨[], .tuple [], .nil⟩
  have stores : fields.Stores earlyUnit :=
    ⟨.bytes [], .tuple [], noTexts, noTexts, noTexts, noTexts, .bytes "", .bytes "f", .bytes []⟩
  have fits : CodeUnit.Fits (.short false) earlyUnit := by
    refine ⟨rfl, fun _ => rfl, fun _ => ⟨rfl, rfl⟩, ?_⟩
    simp only [List.forall_mem_cons, List.not_mem_nil, false_imp_iff, implies_true, and_true]
    decide
  have noBytes : Written (.short false) (levels + 1) tables (.object (.bytes []))
      [0x73, 0, 0, 0, 0] tables := .plain (.bytes (by decide))
  have noItems : Written (.short false) (levels + 1) tables (.object (.tuple []))
      [0x29, 0] tables := .plain (.shortTuple (by decide) .noItems)
  have name : Written (.short false) (levels + 1) tables (.object (.bytes [0x66]))
      [0x73, 1, 0, 0, 0, 0x66] tables := .plain (.bytes (by decide))
  exact .unit fits stores (.item noBytes (.item noItems (.item noItems (.item noItems
    (.item noBytes (.item name .noItems)))))) noBytes

/-- A pair of a unit and a reference to it. -/
def earlyPair : Value :=
  .tuple [.code earlyUnit, .code earlyUnit]

def earlyPairBytes : List UInt8 :=
  [0x29, 2] ++ (0xe3 :: earlyUnitBytes ++ ([0x72, 0, 0, 0, 0] ++ []))

theorem read_earlyPairBytes :
    read ⟨1, 5⟩ (State.start earlyPairBytes) = .ok earlyPair
      (Tables.state ⟨#[some (.code earlyUnit)], #[]⟩ ⟨earlyPairBytes.length, []⟩) := by
  let tables : Tables := ⟨#[some (.code earlyUnit)], #[]⟩
  have first : Written (.short false) 499 .empty (.object (.code earlyUnit)) (0xe3 :: earlyUnitBytes)
      tables := .flagged (written_earlyUnit 497 _)
  have small : 0 < 2 ^ 31 := by decide
  have second : Written (.short false) 499 tables (.object (.code earlyUnit)) [0x72, 0, 0, 0, 0]
      tables := .plain (.reference small rfl)
  have two : [Value.code earlyUnit, .code earlyUnit].length < 256 := by
    change 2 < 256
    decide
  have written : Written (.ofVersion ⟨1, 5⟩) depthLimit .empty (.object earlyPair) earlyPairBytes
      tables := .plain (.shortTuple two (.item first (.item second .noItems)))
  have follows := Read.follows_of_written written 0 []
  rw [List.append_nil, Nat.zero_add] at follows
  rw [read, Read.run_nil_eq]
  exact follows

theorem fits_of_mem_calls_reference :
    .ok earlyPair ∈ (calls ⟨1, 5⟩ 1 (State.start earlyPairBytes)).1 ∧
      Value.Within (.code earlyUnit) earlyPair ∧ CodeUnit.FitsVersion ⟨1, 5⟩ earlyUnit := by
  have returned : .ok earlyPair ∈ (calls ⟨1, 5⟩ 1 (State.start earlyPairBytes)).1 := by
    simp only [calls, read_earlyPairBytes, List.mem_singleton]
  have member : Value.code earlyUnit ∈ earlyPair.parts := .tail _ (.head _)
  have within : Value.Within (.code earlyUnit) earlyPair := .part member .itself
  exact ⟨returned, within, fits_of_mem_calls returned within⟩

end PycListing.Marshal
