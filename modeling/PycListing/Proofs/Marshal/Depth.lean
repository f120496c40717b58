import PycListing.Proofs.Fallible
import PycListing.Proofs.Marshal.BackReference
import PycListing.Proofs.Marshal.RoundTrip

/-! # How deep values are

The number of containers that are open is limited, but an object that is complete may be referred
to inside others, and brings all of its depth there. So the limit bounds the depth of a value
exactly if every reference of the reading finds an object that fits below the containers around
it (`PycListing.Marshal.Session.depth_le_iff`). Nothing in the format ensures this: there are
streams of every version whose value is deeper than the limit
(`PycListing.Marshal.read_deepStream`).
-/

namespace PycListing

mutual

/-- How many containers lie one inside the other. A unit and its constants are one of them. -/
def Value.depth : Value → Nat
  | .tuple items => depths items + 1
  | .list items => depths items + 1
  | .set items => depths items + 1
  | .frozenset items => depths items + 1
  | .dict pairs => pairDepths pairs + 1
  | .code unit => unit.depth
  | _ => 0

def CodeUnit.depth : CodeUnit → Nat
  | ⟨_, _, _, _, _, _, _, consts, _, _, _, _, _, _, _, _⟩ => depths consts + 1

def depths : List Value → Nat
  | [] => 0
  | value :: rest => max value.depth (depths rest)

def pairDepths : List (Value × Value) → Nat
  | [] => 0
  | pair :: rest => max (pairDepth pair) (pairDepths rest)

def pairDepth : Value × Value → Nat
  | (key, value) => max key.depth value.depth

end

theorem CodeUnit.depth_eq (unit : CodeUnit) : unit.depth = depths unit.consts + 1 := by
  cases unit
  rw [CodeUnit.depth]

theorem Marshal.SequenceKind.depth_wrap (kind : Marshal.SequenceKind) (items : List Value) :
    (kind.wrap items).depth = depths items + 1 := by
  cases kind <;> rfl

theorem depths_append (first second : List Value) :
    depths (first ++ second) = max (depths first) (depths second) := by
  induction first with
  | nil => rw [List.nil_append, depths, Nat.max_eq_right (Nat.zero_le _)]
  | cons value rest ih => rw [List.cons_append, depths, depths, ih, Nat.max_assoc]

theorem pairDepths_append (first second : List (Value × Value)) :
    pairDepths (first ++ second) = max (pairDepths first) (pairDepths second) := by
  induction first with
  | nil => rw [List.nil_append, pairDepths, Nat.max_eq_right (Nat.zero_le _)]
  | cons pair rest ih => rw [List.cons_append, pairDepths, pairDepths, ih, Nat.max_assoc]

end PycListing

namespace PycListing.Marshal

/-! ## Containers -/

namespace Pending

/-- The containers that an item of a container lies in, over those around the container. The one
of a unit's constants is counted with them. -/
def level : Pending → Nat
  | .sequence _ _ _ => 1
  | .dict _ _ => 1
  | .unit _ _ _ _ => 0

/-- The depth of a container with the items that were read so far. -/
def depth : Pending → Nat
  | .sequence _ _ items => depths items.toList + 1
  | .dict key pairs => max (depths key.toList) (pairDepths pairs.toList) + 1
  | .unit _ _ fields _ => max (depths fields.toList) 1

theorem depth_of_fresh {pending : Pending} (fresh : pending.Fresh) : pending.depth = 1 := by
  cases fresh <;> rfl

end Pending

namespace Read

theorem depths_push (values : Array Value) (value : Value) :
    depths (values.push value).toList = max (depths values.toList) value.depth := by
  rw [Array.toList_push, depths_append, depths, depths, Nat.max_zero]

theorem depth_of_accept {layout : CodeLayout} {value : Value} {pending opened : Pending}
    {complete : Bool} {state after : State}
    (accepted : accept layout value pending state = .ok (opened, complete) after) :
    opened.level = pending.level ∧
      opened.depth = max pending.depth (pending.level + value.depth) := by
  cases pending with
  | sequence kind declared items =>
      cases accepted
      refine ⟨rfl, ?_⟩
      rw [Pending.depth, Pending.depth, Pending.level, depths_push]
      omega
  | dict key pairs =>
      cases key with
      | some key =>
          cases accepted
          refine ⟨rfl, ?_⟩
          simp only [Pending.depth, Pending.level, Array.toList_push, pairDepths_append, pairDepths,
            pairDepth, depths, Option.toList_some, Option.toList_none]
          omega
      | none =>
          cases value with
          | null =>
              cases accepted
              refine ⟨rfl, ?_⟩
              simp only [Pending.depth, Pending.level, Value.depth]
              omega
          | _ =>
              cases accepted
              refine ⟨rfl, ?_⟩
              simp only [Pending.depth, Pending.level, depths, Option.toList_some,
                Option.toList_none]
              omega
  | unit start counters fields firstLine =>
      obtain ⟨line, rfl⟩ := accept_unit accepted
      refine ⟨rfl, ?_⟩
      rw [Pending.depth, Pending.depth, Pending.level, depths_push]
      omega

end Read

/-! ## Units -/

namespace Field

theorem depth_of_bytes {field : Field} {value : Value} {content : List UInt8}
    (taken : field.bytes value = .ok content) : value.depth = 0 := by
  cases value <;> first | rfl | cases taken

theorem depth_of_items {field : Field} {value : Value} {items : List Value}
    (taken : field.items value = .ok items) : value.depth = depths items + 1 := by
  cases value <;> cases taken <;> rfl

theorem depth_of_string {field : Field} {value : Value} {text : String}
    (taken : field.string value = .ok text) : value.depth = 0 := by
  cases value <;> first | rfl | cases taken

theorem depths_of_mapM_string {field : Field} {items : List Value} {texts : List String}
    (taken : items.mapM field.string = .ok texts) : depths items = 0 := by
  induction items generalizing texts with
  | nil => rfl
  | cons item rest ih =>
      rw [List.mapM_cons] at taken
      obtain ⟨text, first, others⟩ := except_bind_eq_ok taken
      obtain ⟨more, mapped, _⟩ := except_bind_eq_ok others
      rw [depths, depth_of_string first, ih mapped, Nat.max_self]

theorem depth_of_strings {field : Field} {value : Value} {texts : List String}
    (taken : field.strings value = .ok texts) : value.depth = 1 := by
  obtain ⟨items, listed, mapped⟩ := except_bind_eq_ok taken
  rw [depth_of_items listed, depths_of_mapM_string mapped]

end Field

theorem Fields.depth_of_toUnit {fields : Fields} {era : Era} {counters : Counters}
    {firstLine : UInt32} {unit : CodeUnit}
    (made : fields.toUnit era counters firstLine = .ok unit) :
    fields.code.depth = 0 ∧ fields.consts.depth = unit.depth ∧ fields.names.depth = 1 ∧
      fields.varnames.depth = 1 ∧ fields.freevars.depth = 1 ∧ fields.cellvars.depth = 1 ∧
      fields.filename.depth = 0 ∧ fields.name.depth = 0 ∧ fields.lineTable.depth = 0 := by
  obtain ⟨code, isCode, made⟩ := except_bind_eq_ok made
  obtain ⟨consts, areConsts, made⟩ := except_bind_eq_ok made
  obtain ⟨names, areNames, made⟩ := except_bind_eq_ok made
  obtain ⟨varnames, areVarnames, made⟩ := except_bind_eq_ok made
  obtain ⟨freevars, areFreevars, made⟩ := except_bind_eq_ok made
  obtain ⟨cellvars, areCellvars, made⟩ := except_bind_eq_ok made
  obtain ⟨filename, isFilename, made⟩ := except_bind_eq_ok made
  obtain ⟨name, isName, made⟩ := except_bind_eq_ok made
  obtain ⟨lineTable, isLineTable, made⟩ := except_bind_eq_ok made
  cases made
  exact ⟨Field.depth_of_bytes isCode,
    Field.depth_of_items areConsts,
    Field.depth_of_strings areNames, Field.depth_of_strings areVarnames,
    Field.depth_of_strings areFreevars, Field.depth_of_strings areCellvars,
    Field.depth_of_string isFilename, Field.depth_of_string isName,
    Field.depth_of_bytes isLineTable⟩

theorem Fields.depths_of_toUnit {layout : CodeLayout} {values : List Value} {fields : Fields}
    {era : Era} {counters : Counters} {firstLine : UInt32} {unit : CodeUnit}
    (listed : Fields.ofList? layout values = some fields)
    (made : fields.toUnit era counters firstLine = .ok unit) :
    max (depths values) 1 = unit.depth := by
  obtain ⟨code, consts, names, varnames, freevars, cellvars, filename, name, lineTable⟩ :=
    Fields.depth_of_toUnit made
  have deep : 1 ≤ unit.depth := by
    rw [CodeUnit.depth_eq]
    exact Nat.succ_pos _
  unfold Fields.ofList? at listed
  split at listed
  · cases listed
    simp only [depths]
    simp only at code consts names varnames freevars cellvars filename name lineTable
    omega
  · cases listed
    simp only [depths]
    simp only at code consts names varnames freevars cellvars filename name lineTable
    omega
  · cases listed

namespace Read

theorem depth_of_assemble {layout : CodeLayout} {value assembled : Value}
    {pending opened : Pending} {state middle after : State}
    (accepted : accept layout value pending state = .ok (opened, true) middle)
    (made : assemble layout opened middle = .ok assembled after) :
    assembled.depth = opened.depth := by
  cases opened with
  | sequence kind declared items =>
      cases made
      exact kind.depth_wrap _
  | dict key pairs =>
      cases made
      have noKey : key = none := by
        cases pending with
        | sequence => cases accepted
        | unit start counters fields firstLine =>
            obtain ⟨line, other⟩ := accept_unit accepted
            cases other
        | dict held pairs =>
            cases held with
            | some => cases accepted
            | none =>
                cases value <;> cases accepted
                rfl
      subst noKey
      simp only [Value.depth, Pending.depth, Option.toList_none, depths]
      omega
  | unit start counters fields firstLine =>
      cases listed : Fields.ofList? layout fields.toList with
      | none =>
          simp only [assemble, listed] at made
          cases made
      | some kept =>
          simp only [assemble, listed] at made
          cases built : kept.toUnit layout.era counters (firstLine.getD 0) with
          | error defect =>
              simp only [built] at made
              cases made
          | ok unit =>
              simp only [built] at made
              cases made
              exact (Fields.depths_of_toUnit listed built).symm

/-! ## Scalars -/

theorem map_eq_ok {α β : Type} {f : α → β} {reader : Read α} {state after : State} {value : β}
    (result : (f <$> reader) state = .ok value after) : ∃ found, value = f found := by
  rw [map_eq_pure_bind] at result
  obtain ⟨found, middle, _, last⟩ := bind_eq_ok result
  cases last
  exact ⟨found, rfl⟩

theorem depth_of_internedString {era : Era} {state after : State} {value : Value}
    (result : internedString era state = .ok value after) : value.depth = 0 := by
  rw [internedString_eq] at result
  obtain ⟨found, middle, read, last⟩ := bind_eq_ok result
  obtain ⟨count, measured, _, content⟩ := bind_eq_ok read
  cases last
  cases era with
  | legacy =>
      obtain ⟨bytes, rfl⟩ := map_eq_ok content
      rfl
  | modern =>
      obtain ⟨text, rfl⟩ := map_eq_ok content
      rfl

/-- A scalar has no depth, unless it refers to an object. -/
theorem depth_of_scalar {era : Era} {start : Nat} {tag : ScalarTag} {state after : State}
    {value : Value} (result : scalar era start tag state = .ok value after) :
    tag = .reference ∨ tag = .internedReference ∧ value ∈ state.interned.toList ∨
      value.depth = 0 := by
  cases tag with
  | reference => exact .inl rfl
  | internedReference => exact .inr (.inl ⟨rfl, Array.mem_toList_iff.mpr (mem_interned_of_reference result)⟩)
  | interned => exact .inr (.inr (depth_of_internedString result))
  | null => cases result; exact .inr (.inr rfl)
  | none => cases result; exact .inr (.inr rfl)
  | bool => cases result; exact .inr (.inr rfl)
  | stopIteration => cases result; exact .inr (.inr rfl)
  | ellipsis => cases result; exact .inr (.inr rfl)
  | int32 => obtain ⟨n, rfl⟩ := map_eq_ok result; exact .inr (.inr rfl)
  | int64 => obtain ⟨n, rfl⟩ := map_eq_ok result; exact .inr (.inr rfl)
  | floatText => obtain ⟨bits, rfl⟩ := map_eq_ok result; exact .inr (.inr rfl)
  | floatBits => obtain ⟨bits, rfl⟩ := map_eq_ok result; exact .inr (.inr rfl)
  | long =>
      obtain ⟨count, counted, _, digits⟩ := bind_eq_ok result
      obtain ⟨read, scanned, _, last⟩ := bind_eq_ok digits
      cases last
      exact .inr (.inr rfl)
  | complexText =>
      obtain ⟨re, middle, _, rest⟩ := bind_eq_ok result
      obtain ⟨im, scanned, _, last⟩ := bind_eq_ok rest
      cases last
      exact .inr (.inr rfl)
  | complexBits =>
      obtain ⟨re, middle, _, rest⟩ := bind_eq_ok result
      obtain ⟨im, scanned, _, last⟩ := bind_eq_ok rest
      cases last
      exact .inr (.inr rfl)
  | bytes =>
      obtain ⟨count, counted, _, content⟩ := bind_eq_ok result
      obtain ⟨bytes, rfl⟩ := map_eq_ok content
      exact .inr (.inr rfl)
  | text form =>
      obtain ⟨count, counted, _, content⟩ := bind_eq_ok result
      obtain ⟨text, rfl⟩ := map_eq_ok content
      exact .inr (.inr rfl)

/-- An object that is complete at once is at most one level deep, unless it refers to another. -/
theorem depth_of_opening {layout : CodeLayout} {start : Nat} {first : UInt8} {state after : State}
    {value : Value} (result : opening layout start first state = .ok (.inl value) after) :
    announces .reference first = true ∨ value ∈ state.interned.toList ∨ value.depth ≤ 1 := by
  unfold opening at result
  rw [bind_of_ok (reserveFor_eq first state)] at result
  cases known : Tag.ofByte? (withoutFlag first) with
  | none =>
      rw [known] at result
      cases result
  | some tag =>
      simp only [announces, known, beq_iff_eq, Option.some.injEq]
      rw [known] at result
      cases tag with
      | scalar tag =>
          obtain ⟨found, settled, completed, same⟩ := bind_eq_ok result
          cases same
          obtain ⟨found, scanned, read, rest⟩ := bind_eq_ok completed
          rw [bind_of_ok (settle_eq _ _ _)] at rest
          cases rest
          rcases depth_of_scalar read with rfl | ⟨_, member⟩ | flat
          · exact .inl rfl
          · exact .inr (.inl member)
          · exact .inr (.inr (by omega))
      | sequence kind form =>
          obtain ⟨declared, measured, length, rest⟩ := bind_eq_ok result
          by_cases empty : declared = 0
          · simp only [empty, if_true, finish, assemble, pure_bind, bind_assoc] at rest
            rw [bind_of_ok (settle_eq _ _ _)] at rest
            cases rest
            refine .inr (.inr (Nat.le_of_eq ?_))
            exact kind.depth_wrap []
          · simp only [empty, if_false] at rest
            cases rest
      | dict => cases result
      | unit =>
          obtain ⟨counters, counted, _, same⟩ := bind_eq_ok result
          cases same

theorem depth_of_opening_interned {layout : CodeLayout} {start : Nat} {first : UInt8}
    {state after : State} {value : Value}
    (result : opening layout start first state = .ok (.inl value) after)
    (interned : announces .interned first = true) : value.depth = 0 := by
  have known : Tag.ofByte? (withoutFlag first) = some (.scalar .interned) := by
    simpa only [announces, beq_iff_eq] using interned
  unfold opening at result
  rw [bind_of_ok (reserveFor_eq first state), known] at result
  obtain ⟨found, settled, completed, same⟩ := bind_eq_ok result
  cases same
  obtain ⟨found, scanned, read, rest⟩ := bind_eq_ok completed
  rw [bind_of_ok (settle_eq _ _ _)] at rest
  cases rest
  exact depth_of_internedString read

end Read

/-! ## Sessions -/

/-- How many containers an object inside some frames lies in. -/
def levels (frames : List Frame) : Nat :=
  (frames.map fun frame => frame.pending.level).sum

/-- The depth that the outermost of some frames has already. -/
def peak : List Frame → Nat
  | [] => 0
  | frame :: outer => max (levels outer + frame.pending.depth) (peak outer)

theorem levels_cons (frame : Frame) (outer : List Frame) :
    levels (frame :: outer) = levels outer + frame.pending.level := by
  rw [levels, List.map_cons, List.sum_cons, Nat.add_comm]
  rfl

theorem levels_le_length (frames : List Frame) : levels frames ≤ frames.length := by
  induction frames with
  | nil => exact Nat.le_refl _
  | cons frame outer ih =>
      have one : frame.pending.level ≤ 1 := by
        cases frame.pending with
        | sequence => exact Nat.le_refl _
        | dict => exact Nat.le_refl _
        | unit => exact Nat.zero_le _
      rw [levels_cons, List.length_cons]
      omega

/-- A reference that found an object found one that fits below the containers around it. -/
def Record.Fits (record : Record) : Prop :=
  Read.announces .reference record.first = true →
    ∀ target, record.outcome = .complete target → levels record.around + target.depth ≤ depthLimit

theorem Record.fits_of_isReading {record : Record} (reading : record.isReading = true) :
    record.Fits := by
  intro _ target complete
  rw [outcome_of_isReading reading] at complete
  cases complete

theorem Record.fits_of_container {record : Record}
    (container : Read.announces .reference record.first = false) : record.Fits := by
  intro reference
  rw [container] at reference
  cases reference

def ReferencesFit (records : List Record) : Prop :=
  ∀ record ∈ records, record.Fits

theorem referencesFit_cons {record : Record} {older : List Record} :
    ReferencesFit (record :: older) ↔ record.Fits ∧ ReferencesFit older :=
  List.forall_mem_cons

theorem referencesFit_complete {newer older : List Record} {record : Record} (value : Value)
    (container : Read.announces .reference record.first = false) :
    ReferencesFit (newer ++ record.complete value :: older) ↔
      ReferencesFit (newer ++ record :: older) := by
  have before : record.Fits := Record.fits_of_container container
  have after : (record.complete value).Fits := Record.fits_of_container container
  simp only [ReferencesFit, List.forall_mem_append, List.forall_mem_cons, before, after]

namespace Session

/-- The depth that the object of the call that is under way has already. -/
def peak (session : Session) : Nat :=
  match session.held with
  | none => Marshal.peak session.frames
  | some value => max (Marshal.peak session.frames) (levels session.frames + value.depth)

theorem peak_of_free {session : Session} (free : session.held = none) :
    session.peak = Marshal.peak session.frames := by
  rw [peak, free]

theorem peak_of_holds {session : Session} {value : Value} (holds : session.held = some value) :
    session.peak =
      max (Marshal.peak session.frames) (levels session.frames + value.depth) := by
  rw [peak, holds]

/-- What holds of the depth of the first object, while it is read and once it is complete. -/
structure Measured (session : Session) : Prop where
  flat : ∀ value ∈ internedValues session.records, value.depth = 0
  under : session.results = [] → (session.peak ≤ depthLimit ↔ ReferencesFit session.records)
  done : ∀ value, session.results = [.ok value] → session.Idle →
    (value.depth ≤ depthLimit ↔ ReferencesFit session.records)

theorem Measured.fails {session : Session} (flat : ∀ value ∈ internedValues session.records,
    value.depth = 0) (error : Error) (after : State) : (session.fails error after).Measured where
  flat := by
    change ∀ value ∈ internedValues (session.records.map (Record.cutBy error)), value.depth = 0
    rwa [internedValues_map_cutBy]
  under := by
    intro none
    cases none
  done := by
    intro value only
    cases only

/-- An object that is complete at once fits, or is a reference whose fitting is what is asked. -/
theorem Measured.reads {layout : CodeLayout} {session : Session} {first : UInt8} {value : Value}
    {state final : State} (measured : session.Measured) (listed : session.Listed)
    (free : session.held = none) (room : session.frames.length < depthLimit)
    (found : Read.opening layout session.state.input.offset first state = .ok (.inl value) final)
    (same : state.interned = session.state.interned) :
    ((session.noting first).completes value session.frames final).Measured := by
  let record : Record := ⟨session.state, first, session.frames, .complete value⟩
  constructor
  · change ∀ entry ∈ internedValues (record :: session.records), entry.depth = 0
    rw [internedValues_cons]
    intro entry member
    rcases List.mem_append.mp member with old | new
    · exact measured.flat entry old
    · by_cases interned : record.interned = true
      · rw [if_pos interned] at new
        cases List.mem_singleton.mp new
        exact Read.depth_of_opening_interned found interned
      · rw [if_neg interned] at new
        cases new
  · intro none
    have before := measured.under none
    rw [peak_of_free free] at before
    change max (Marshal.peak session.frames) (levels session.frames + value.depth) ≤ depthLimit ↔
      ReferencesFit (record :: session.records)
    rw [referencesFit_cons, ← before, Nat.max_le, and_comm]
    apply and_congr_left'
    by_cases reference : Read.announces .reference first = true
    · constructor
      · intro fits _ target complete
        cases complete
        exact fits
      · intro fits
        exact fits reference value rfl
    · have plain : record.Fits := Record.fits_of_container (Bool.eq_false_iff.mpr reference)
      have shallow : value.depth ≤ 1 := by
        rcases Read.depth_of_opening found with refers | member | shallow
        · exact absurd refers reference
        · rw [same, listed.interned] at member
          rw [measured.flat value member]
          exact Nat.zero_le _
        · exact shallow
      have below := levels_le_length session.frames
      exact iff_of_true (by omega) plain
  · intro other _ idle
    cases idle.2

/-- A container that is opened adds one level, for which there is room. -/
theorem Measured.opens {layout : CodeLayout} {session : Session} {first : UInt8} {frame : Frame}
    {state final : State} (measured : session.Measured) (free : session.held = none)
    (room : session.frames.length < depthLimit)
    (found : Read.opening layout session.state.input.offset first state = .ok (.inr frame) final) :
    ((session.noting first).opens frame final).Measured := by
  obtain ⟨_, _, _, fresh, _⟩ := Read.opening_inr found
  have records : ((session.noting first).opens frame final).records =
      ⟨session.state, first, session.frames, .reading⟩ :: session.records := rfl
  constructor
  · rw [records, internedValues_cons_of_isReading rfl]
    exact measured.flat
  · intro none
    have before := measured.under none
    have below := levels_le_length session.frames
    rw [peak_of_free free] at before
    have opened : ((session.noting first).opens frame final).peak =
        max (levels session.frames + frame.pending.depth) (Marshal.peak session.frames) :=
      peak_of_free free
    rw [opened, records, Pending.depth_of_fresh fresh, referencesFit_cons, ← before, Nat.max_le]
    apply and_congr_left'
    apply iff_of_true (by omega)
    exact Record.fits_of_isReading rfl
  · intro value _ idle
    cases idle.1

theorem Measured.returns {session : Session} {value : Value} (measured : session.Measured)
    (holds : session.held = some value) (outermost : session.frames = []) :
    (session.returns value).Measured := by
  constructor
  · exact measured.flat
  · intro empty
    cases empty
  · intro other only idle
    obtain ⟨same, empty⟩ := List.cons.inj only
    cases same
    have before := measured.under empty
    rw [peak_of_holds holds, outermost] at before
    change max 0 (0 + value.depth) ≤ depthLimit ↔ _ at before
    rwa [Nat.zero_max, Nat.zero_add] at before

/-- The depth of an object that its container takes is one of the container from then on. -/
theorem Measured.takes {layout : CodeLayout} {session : Session} {value : Value} {frame : Frame}
    {outer : List Frame} {pending : Pending} {final : State} (measured : session.Measured)
    (holds : session.held = some value) (inner : session.frames = frame :: outer)
    (accepted : Read.accept layout value frame.pending session.state =
      .ok (pending, false) final) :
    Measured { session with
      state := final, frames := { frame with pending } :: outer, held := none } := by
  obtain ⟨level, depth⟩ := Read.depth_of_accept accepted
  constructor
  · exact measured.flat
  · intro empty
    have before := measured.under empty
    rw [peak_of_holds holds, inner, levels_cons] at before
    rw [← before]
    change max (levels outer + pending.depth) (Marshal.peak outer) ≤ depthLimit ↔
      max (max (levels outer + frame.pending.depth) (Marshal.peak outer)) _ ≤ depthLimit
    rw [depth]
    omega
  · intro other _ idle
    cases idle.1

/-- A container that is complete has been as deep as its value before, and is no reference. -/
theorem Measured.closes {layout : CodeLayout} {session : Session} {value assembled : Value}
    {frame : Frame} {outer : List Frame} {pending : Pending} {middle final : State}
    (measured : session.Measured) (tracked : session.Tracked layout)
    (holds : session.held = some value) (inner : session.frames = frame :: outer)
    (accepted : Read.accept layout value frame.pending session.state = .ok (pending, true) middle)
    (finished : Read.finish layout { frame with pending } middle = .ok assembled final) :
    (session.completes assembled outer final).Measured := by
  obtain ⟨newer, record, older, split, shut, reading, tracks⟩ := tracked.innermost inner
  obtain ⟨level, depth⟩ := Read.depth_of_accept accepted
  obtain ⟨_, made, _, _, _⟩ := Read.finish_ok finished
  have total := Read.depth_of_assemble accepted made
  have records : (session.completes assembled outer final).records =
      newer ++ record.complete assembled :: older := by
    change completeNewest assembled session.records = _
    rw [split, completeNewest_append assembled shut reading]
  cases tracks with
  | past closed =>
      rw [reading] at closed
      cases closed
  | inside _ _ container _ _ _ others =>
      constructor
      · rw [records, internedValues_complete assembled (container .interned), ← split]
        exact measured.flat
      · intro empty
        have before := measured.under empty
        rw [peak_of_holds holds, inner, levels_cons] at before
        rw [records, referencesFit_complete assembled (container .reference), ← split, ← before]
        change max (Marshal.peak outer) (levels outer + assembled.depth) ≤ depthLimit ↔
          max (max (levels outer + frame.pending.depth) (Marshal.peak outer)) _ ≤ depthLimit
        rw [total]
        change pending.depth = _ at depth
        rw [depth]
        omega
      · intro other _ idle
        cases idle.2

theorem Measured.step {layout : CodeLayout} {session later : Session}
    (measured : session.Measured) (listed : session.Listed) (tracked : session.Tracked layout)
    (steps : Steps layout session later) : later.Measured := by
  cases steps with
  | tooDeep => exact .fails measured.flat _ _
  | ends => exact .fails measured.flat _ _
  | refuses => exact .fails measured.flat _ _
  | spoils => exact .fails measured.flat _ _
  | unread =>
      refine .fails ?_ _ _
      rw [noting, internedValues_cons_of_isReading rfl]
      exact measured.flat
  | reads free room bytes found => exact measured.reads listed free room found rfl
  | opens free room bytes found => exact measured.opens free room found
  | returns holds outermost => exact measured.returns holds outermost
  | takes holds inner accepted => exact measured.takes holds inner accepted
  | closes holds inner accepted finished =>
      exact measured.closes tracked holds inner accepted finished

theorem measured_after (version : Version) (stream : List UInt8) (steps : Nat) :
    (after version stream steps).Measured := by
  induction steps with
  | zero =>
      constructor
      · intro value member
        cases member
      · intro _
        apply iff_of_true (Nat.zero_le _)
        intro record member
        cases member
      · intro value only
        cases only
  | succ steps ih =>
      obtain ⟨listed, tracked, _, _⟩ := invariants version stream steps
      exact ih.step listed tracked (steps_after version stream steps)

theorem exists_first {version : Version} {stream : List UInt8} {value : Value} {final : State}
    (found : read version (State.start stream) = .ok value final) :
    ∃ steps, (after version stream steps).Idle ∧
      (after version stream steps).results = [.ok value] ∧
      (after version stream steps).state = final := by
  obtain ⟨steps, idle, same⟩ := exists_calls version stream 1
  have called : calls version 1 (State.start stream) = ([.ok value], final) := by
    simp only [calls, found]
  rw [called, Prod.mk.injEq] at same
  exact ⟨steps, idle, same⟩

/-- **The limit and references.** An object that a fresh reader comes back with is at most as deep
as the limit exactly if each reference that was followed for it found an object that fits below
the containers around the reference. -/
theorem depth_le_iff {version : Version} {stream : List UInt8} {value : Value} {final : State}
    (found : read version (State.start stream) = .ok value final) :
    ∃ steps, (after version stream steps).Idle ∧
      (after version stream steps).results = [.ok value] ∧
      (after version stream steps).state = final ∧
      (value.depth ≤ depthLimit ↔
        ∀ record ∈ (after version stream steps).records,
          Read.announces .reference record.first = true →
            ∀ target, record.outcome = .complete target →
              levels record.around + target.depth ≤ depthLimit) := by
  obtain ⟨steps, idle, results, state⟩ := exists_first found
  exact ⟨steps, idle, results, state,
    (measured_after version stream steps).done value results idle⟩

end Session

/-! ## Values deeper than the limit -/

def nested : Nat → Value → Value
  | 0, value => value
  | count + 1, value => .tuple [nested count value]

theorem depth_nested (count : Nat) (value : Value) :
    (nested count value).depth = count + value.depth := by
  induction count with
  | zero => rw [nested, Nat.zero_add]
  | succ count ih =>
      rw [nested, Value.depth, depths, depths, ih]
      omega

/-- The front of some number of tuples of one item. -/
def tupleFronts (count : Nat) : List UInt8 :=
  (List.replicate count [0x29, 1]).flatten

theorem written_nested {layout : CodeLayout} {levels : Nat} {before after : Tables}
    {value : Value} {bytes : List UInt8}
    (written : Written layout levels before (.object value) bytes after) (count : Nat) :
    Written layout (levels + count) before (.object (nested count value))
      (tupleFronts count ++ bytes) after := by
  induction count with
  | zero => exact written
  | succ count ih =>
      have items := Written.item ih .noItems
      rw [List.append_nil] at items
      have one : [nested count value].length < 256 := by
        change 1 < 256
        decide
      exact .plain (.shortTuple one items)

/-- A pair of 300 tuples one inside the other, and of 300 more around a reference to them. -/
def deepStream : List UInt8 :=
  [0x29, 2] ++ (([0xa9, 1] ++ (tupleFronts 299 ++ [0x4e])) ++
    (tupleFronts 300 ++ [0x72, 0, 0, 0, 0]))

def deepValue : Value :=
  .tuple [nested 300 .none, nested 300 (nested 300 .none)]

theorem depth_deepValue : deepValue.depth = 601 := by
  simp only [deepValue, Value.depth, depths, depth_nested]
  rfl

/-- The limit does not bound the depth of what is read, in no version. -/
theorem read_deepStream (version : Version) :
    read version (State.start deepStream) =
      .ok deepValue (Tables.state ⟨#[some (nested 300 .none)], #[]⟩ ⟨deepStream.length, []⟩) := by
  let layout := CodeLayout.ofVersion version
  let tables : Tables := ⟨#[some (nested 300 .none)], #[]⟩
  have inner : Written layout 498 (Tables.reserve .empty) (.object (nested 299 .none))
      (tupleFronts 299 ++ [0x4e]) (Tables.reserve .empty) :=
    written_nested (.plain (.none : Written layout 198 _ _ _ _)) 299
  have items := Written.item inner .noItems
  rw [List.append_nil] at items
  have one : [nested 299 .none].length < 256 := by
    change 1 < 256
    decide
  have first : Written layout 499 .empty (.object (nested 300 .none))
      ([0xa9, 1] ++ (tupleFronts 299 ++ [0x4e])) tables := .flagged (.shortTuple one items)
  have small : 0 < 2 ^ 31 := by decide
  have reference : Written layout 199 tables (.object (nested 300 .none)) [0x72, 0, 0, 0, 0]
      tables := .plain (.reference small rfl)
  have second := written_nested reference 300
  have both := Written.item first (.item second .noItems)
  rw [List.append_nil] at both
  have two : [nested 300 .none, nested 300 (nested 300 .none)].length < 256 := by
    change 2 < 256
    decide
  have written : Written layout depthLimit .empty (.object deepValue) deepStream tables :=
    .plain (.shortTuple two both)
  have follows := Read.follows_of_written written 0 []
  rw [List.append_nil, Nat.zero_add] at follows
  rw [read, Read.run_nil_eq]
  exact follows

namespace Session

theorem depth_le_iff_deepStream :
    depthLimit < deepValue.depth ∧ ∃ steps,
      (after ⟨3, 4⟩ deepStream steps).results = [.ok deepValue] ∧
      ∃ record ∈ (after ⟨3, 4⟩ deepStream steps).records,
        Read.announces .reference record.first = true ∧
        ∃ target, record.outcome = .complete target ∧
          depthLimit < levels record.around + target.depth := by
  have deep : depthLimit < deepValue.depth := by
    rw [depth_deepValue]
    decide
  obtain ⟨steps, _, results, _, fits⟩ := depth_le_iff (read_deepStream ⟨3, 4⟩)
  refine ⟨deep, steps, results, ?_⟩
  have unfit := mt fits.mpr (Nat.not_le.mpr deep)
  simp only [not_forall, Nat.not_le] at unfit
  rcases unfit with ⟨record, member, reference, target, complete, beyond⟩
  exact ⟨record, member, reference, target, complete, beyond⟩

end Session

end PycListing.Marshal
