import PycListing.Container.Load
import PycListing.Proofs.Checked.Order
import PycListing.Proofs.Marshal.Fit
import PycListing.Proofs.Marshal.Refinement
import PycListing.Proofs.Text.Utf8

/-! # What is loaded is short

A stream gives the length of each string and the number of items of each sequence as a signed number
of 32 bits, so no value that is read has `2 ^ 31` entries, and no unit in it has a part that has
(`PycListing.Container.allShort_of_load`). The invariant is that whatever can be referred to is
short as well.
-/

namespace PycListing

namespace Value

/-- The number of bytes or items that a value itself has, as far as a unit can be made of it. -/
def entryCount : Value → Nat
  | .bytes content => content.length
  | .str text => (Text.utf8Bytes text).length
  | .tuple items => items.length
  | .list items => items.length
  | _ => 0

/-- A value that itself has fewer than `2 ^ 31` entries, and so has each of its parts if it is a
unit. -/
structure Few (value : Value) : Prop where
  entries : value.entryCount < 2 ^ 31
  unit : ∀ unit, value.unit? = some unit → unit.Short

/-- A value in which everything has fewer than `2 ^ 31` entries. -/
def Short (value : Value) : Prop :=
  ∀ part, Within part value → part.Few

theorem Short.few {value : Value} (short : value.Short) : value.Few :=
  short value .itself

theorem Short.part {whole part : Value} (short : whole.Short) (member : part ∈ whole.parts) :
    part.Short :=
  fun inner within => short inner (.part member within)

theorem Short.of_parts {whole : Value} (few : whole.Few)
    (parts : ∀ part ∈ whole.parts, part.Short) : whole.Short := by
  intro inner within
  rcases within_iff.mp within with rfl | ⟨part, member, inPart⟩
  · exact few
  · exact parts part member inner inPart

/-- A value that is no unit and has no parts is short if it has few entries itself. -/
theorem Short.of_atom {value : Value} (atom : Marshal.IsAtom value)
    (entries : value.entryCount < 2 ^ 31) : value.Short := by
  refine .of_parts ⟨entries, fun unit isUnit => ?_⟩ ?_
  · cases atom.1.symm.trans isUnit
  · rw [atom.2]
    exact List.forall_mem_nil _

theorem Short.wrap {kind : Marshal.SequenceKind} {items : List Value} (few : items.length < 2 ^ 31)
    (short : ∀ item ∈ items, item.Short) : (kind.wrap items).Short := by
  have uncounted : 0 < 2 ^ 31 := Nat.two_pow_pos 31
  cases kind with
  | tuple => exact .of_parts ⟨few, nofun⟩ short
  | list => exact .of_parts ⟨few, nofun⟩ short
  | set => exact .of_parts ⟨uncounted, nofun⟩ short
  | frozenset => exact .of_parts ⟨uncounted, nofun⟩ short

theorem Short.dict {pairs : List (Value × Value)}
    (short : ∀ pair ∈ pairs, pair.1.Short ∧ pair.2.Short) : (Value.dict pairs).Short := by
  refine .of_parts ⟨Nat.two_pow_pos 31, nofun⟩ fun part member => ?_
  obtain ⟨pair, present, rfl | rfl⟩ := mem_parts_dict.mp member
  · exact (short pair present).1
  · exact (short pair present).2

theorem Short.code {unit : CodeUnit} (short : unit.Short)
    (consts : ∀ value ∈ unit.consts, value.Short) : (Value.code unit).Short := by
  refine .of_parts ⟨Nat.two_pow_pos 31, fun found isUnit => ?_⟩ consts
  cases isUnit
  exact short

/-- The units of a tree lie within its root. -/
theorem within_of_unitAt? {root unit : CodeUnit} {path : Path}
    (stands : root.unitAt? path = some unit) : Within (.code unit) (.code root) := by
  induction path generalizing root with
  | nil =>
      cases stands
      exact .itself
  | cons place path ih =>
      obtain ⟨child, stored, stands⟩ := Option.bind_eq_some_iff.mp stands
      obtain ⟨value, held, isUnit⟩ := Option.bind_eq_some_iff.mp stored
      rw [eq_code_of_unit? isUnit] at held
      exact .part (List.mem_of_getElem? held) (ih stands)

theorem Short.allShort {root : CodeUnit} (short : (Value.code root).Short) : root.AllShort :=
  fun _ unit stands => (short _ (within_of_unitAt? stands)).unit unit rfl

end Value

namespace Marshal

/-! ## Units -/

namespace Field

theorem length_of_bytes {field : Field} {value : Value} {content : List UInt8}
    (taken : field.bytes value = .ok content) (short : value.Short) : content.length < 2 ^ 31 := by
  cases value with
  | bytes =>
      cases taken
      exact short.few.entries
  | str =>
      cases taken
      exact short.few.entries
  | _ => cases taken

theorem length_of_items {field : Field} {value : Value} {items : List Value}
    (taken : field.items value = .ok items) (short : value.Short) :
    items.length < 2 ^ 31 ∧ ∀ item ∈ items, item.Short := by
  cases value with
  | tuple =>
      cases taken
      exact ⟨short.few.entries, fun _ member => short.part member⟩
  | list =>
      cases taken
      exact ⟨short.few.entries, fun _ member => short.part member⟩
  | _ => cases taken

theorem length_of_strings {field : Field} {value : Value} {texts : List String}
    (taken : field.strings value = .ok texts) (short : value.Short) : texts.length < 2 ^ 31 := by
  obtain ⟨items, areItems, mapped⟩ := except_bind_eq_ok taken
  rw [length_of_mapM mapped]
  exact (length_of_items areItems short).1

end Field

theorem Fields.short_of_ofList? {layout : CodeLayout} {values : List Value} {fields : Fields}
    (listed : Fields.ofList? layout values = some fields) (short : ∀ value ∈ values, value.Short) :
    ∀ field ∈ [fields.code, fields.consts, fields.names, fields.varnames, fields.freevars,
      fields.cellvars, fields.lineTable], field.Short := by
  have noItems : (Value.tuple []).Short :=
    .of_parts ⟨Nat.two_pow_pos 31, nofun⟩ (List.forall_mem_nil _)
  unfold Fields.ofList? at listed
  split at listed
  · cases listed
    simp only [List.forall_mem_cons] at short ⊢
    obtain ⟨code, consts, names, varnames, freevars, cellvars, _, _, lineTable, last⟩ := short
    exact ⟨code, consts, names, varnames, freevars, cellvars, lineTable, last⟩
  · cases listed
    simp only [List.forall_mem_cons] at short ⊢
    obtain ⟨code, consts, names, varnames, _, _, lineTable, last⟩ := short
    exact ⟨code, consts, names, varnames, noItems, noItems, lineTable, last⟩
  · cases listed

theorem Fields.short_of_toUnit {layout : CodeLayout} {values : List Value} {fields : Fields}
    {counters : Counters} {firstLine : UInt32} {unit : CodeUnit}
    (listed : Fields.ofList? layout values = some fields)
    (made : fields.toUnit layout.era counters firstLine = .ok unit)
    (short : ∀ value ∈ values, value.Short) : (Value.code unit).Short := by
  have stored := Fields.short_of_ofList? listed short
  simp only [List.forall_mem_cons] at stored
  obtain ⟨code, consts, names, varnames, freevars, cellvars, lineTable, _⟩ := stored
  obtain ⟨_, isCode, made⟩ := except_bind_eq_ok made
  obtain ⟨_, areConsts, made⟩ := except_bind_eq_ok made
  obtain ⟨_, areNames, made⟩ := except_bind_eq_ok made
  obtain ⟨_, areVarnames, made⟩ := except_bind_eq_ok made
  obtain ⟨_, areFreevars, made⟩ := except_bind_eq_ok made
  obtain ⟨_, areCellvars, made⟩ := except_bind_eq_ok made
  obtain ⟨_, _, made⟩ := except_bind_eq_ok made
  obtain ⟨_, _, made⟩ := except_bind_eq_ok made
  obtain ⟨_, isLineTable, made⟩ := except_bind_eq_ok made
  cases made
  obtain ⟨few, inner⟩ := Field.length_of_items areConsts consts
  exact .code
    { code := Field.length_of_bytes isCode code
      lineTable := Field.length_of_bytes isLineTable lineTable
      consts := few
      names := Field.length_of_strings areNames names
      varnames := Field.length_of_strings areVarnames varnames
      freevars := Field.length_of_strings areFreevars freevars
      cellvars := Field.length_of_strings areCellvars cellvars } inner

/-! ## Readers -/

/-- What can be referred to is short. -/
structure State.Short (state : State) : Prop where
  slots : ∀ value, some value ∈ state.slots → value.Short
  interned : ∀ value ∈ state.interned, value.Short

theorem State.Short.of_eq {state after : State} (short : state.Short)
    (slots : after.slots = state.slots) (interned : after.interned = state.interned) :
    after.Short :=
  ⟨slots ▸ short.slots, interned ▸ short.interned⟩

namespace Read

variable {α β : Type}

/-- What a function makes of something good is good. -/
theorem Gives.map_of {reader : Read α} {f : α → β} {good : α → Prop} {better : β → Prop}
    (gives : Gives reader good) (holds : ∀ value, good value → better (f value)) :
    Gives (f <$> reader) better := by
  rw [map_eq_pure_bind]
  exact gives.bind fun value found => .pure (holds value found)

theorem Gives.signed : Gives (Read.signed 4) (· < 2 ^ 31) := by
  refine .map fun value => ?_
  have below := Int.bmod_lt (x := (value : Int)) (m := Nat.pow 256 4) (by decide)
  have bound : ((Nat.pow 256 4 : Nat) : Int) = 2 ^ 32 := rfl
  rw [bound] at below
  omega

theorem Gives.length : Gives Read.length (· < 2 ^ 31) := by
  refine .bind_right fun start => .bind .signed fun value small => ?_
  split
  · exact .failMalformed _ _
  · exact .pure (by omega)

theorem Gives.lengthOf (form : LengthForm) : Gives (Read.lengthOf form) (· < 2 ^ 31) := by
  cases form with
  | short =>
      refine .map fun byte => ?_
      have small := byte.toNat_lt
      omega
  | wide => exact .length

theorem Gives.payload (count : Nat) : Gives (Read.payload count) (·.length = count) := by
  intro state bytes after result
  unfold Read.payload at result
  split at result
  · rename_i found rest taken
    cases result
    rw [Cursor.take_eq] at taken
    split at taken
    · rename_i enough
      cases taken
      exact List.length_take_of_le enough
    · cases taken
  · cases result

theorem Gives.text (count : Nat) :
    Gives (Read.text count) fun text => (Text.utf8Bytes text).length = count := by
  refine .bind_right fun start => .bind (.payload count) fun bytes taken => ?_
  split
  · rename_i text decoded
    refine .pure ?_
    rw [Text.utf8Bytes_of_ofUtf8? decoded, taken]
  · exact .failMalformed _ _

/-- A scalar that is stored itself is short. -/
theorem Gives.internedContent_short (era : Era) : Gives (Read.internedContent era) Value.Short := by
  refine .bind .length fun count few => ?_
  cases era with
  | legacy =>
      refine .map_of (.payload count) fun bytes taken => .of_atom ⟨rfl, rfl⟩ ?_
      exact taken.trans_lt few
  | modern =>
      refine .map_of (.text count) fun text taken => .of_atom ⟨rfl, rfl⟩ ?_
      exact taken.trans_lt few

/-- A reader that comes back with something good, and keeps short what can be referred to. -/
def Secures (reader : Read α) (good : α → Prop) : Prop :=
  ∀ state value after, reader state = .ok value after → state.Short → good value ∧ after.Short

namespace Secures

variable {reader : Read α} {good : α → Prop}

theorem of_keeps (keeps : Keeps reader) (gives : Gives reader good) : Secures reader good := by
  intro state value after result short
  obtain ⟨slots, interned⟩ := keeps.of_ok result
  exact ⟨gives state value after result, short.of_eq slots interned⟩

theorem pure {value : α} (holds : good value) : Secures (Pure.pure value) good :=
  .of_keeps (.pure value) (.pure holds)

theorem fail (offset : Nat) (cause : Cause) : Secures (Read.fail offset cause : Read α) good :=
  fun _ _ _ result => nomatch result

theorem bind {next : α → Read β} {better : β → Prop} (first : Secures reader good)
    (second : ∀ value, good value → Secures (next value) better) :
    Secures (reader >>= next) better := by
  intro state value final result short
  obtain ⟨found, after, read, rest⟩ := bind_eq_ok result
  obtain ⟨holds, kept⟩ := first state found after read short
  exact second found holds after value final rest kept

theorem bind_keeps {next : α → Read β} {better : β → Prop} (keeps : Keeps reader)
    (second : ∀ value, Secures (next value) better) : Secures (reader >>= next) better :=
  .bind (.of_keeps keeps (.trivial reader)) fun value _ => second value

/-- An interned string joins those that can be referred to. -/
theorem internedString (era : Era) : Secures (Read.internedString era) Value.Short := by
  rw [internedString_eq]
  refine .bind (.of_keeps (.internedContent era) (.internedContent_short era)) fun value few => ?_
  intro state found after result short
  cases result
  exact ⟨few, short.slots, Array.forall_mem_push.mpr ⟨few, short.interned⟩⟩

/-- What is stored behind the tag of a scalar is short, and so is what it refers to. -/
theorem scalar (era : Era) (start : Nat) (tag : ScalarTag) :
    Secures (Read.scalar era start tag) Value.Short := by
  have uncounted : 0 < 2 ^ 31 := Nat.two_pow_pos 31
  cases tag with
  | null => exact .pure (.of_atom ⟨rfl, rfl⟩ uncounted)
  | none => exact .pure (.of_atom ⟨rfl, rfl⟩ uncounted)
  | bool => exact .pure (.of_atom ⟨rfl, rfl⟩ uncounted)
  | stopIteration => exact .pure (.of_atom ⟨rfl, rfl⟩ uncounted)
  | ellipsis => exact .pure (.of_atom ⟨rfl, rfl⟩ uncounted)
  | int32 => exact .of_keeps (.map _ (.signed 4)) (.map fun _ => .of_atom ⟨rfl, rfl⟩ uncounted)
  | int64 => exact .of_keeps (.map _ (.signed 8)) (.map fun _ => .of_atom ⟨rfl, rfl⟩ uncounted)
  | long =>
      exact .bind_keeps (.signed 4) fun _ => .bind_keeps (.longDigits _) fun _ =>
        .pure (.of_atom ⟨rfl, rfl⟩ uncounted)
  | floatText => exact .of_keeps (.map _ .floatText) (.map fun _ => .of_atom ⟨rfl, rfl⟩ uncounted)
  | floatBits => exact .of_keeps (.map _ .floatBits) (.map fun _ => .of_atom ⟨rfl, rfl⟩ uncounted)
  | complexText =>
      exact .bind_keeps .floatText fun _ => .bind_keeps .floatText fun _ =>
        .pure (.of_atom ⟨rfl, rfl⟩ uncounted)
  | complexBits =>
      exact .bind_keeps .floatBits fun _ => .bind_keeps .floatBits fun _ =>
        .pure (.of_atom ⟨rfl, rfl⟩ uncounted)
  | bytes =>
      refine .bind (.of_keeps .length .length) fun count few => ?_
      refine .of_keeps (.map _ (.payload count)) (.map_of (.payload count) fun bytes taken => ?_)
      exact .of_atom ⟨rfl, rfl⟩ (taken.trans_lt few)
  | text form =>
      refine .bind (.of_keeps (.lengthOf form) (.lengthOf form)) fun count few => ?_
      refine .of_keeps (.map _ (.text count)) (.map_of (.text count) fun text taken => ?_)
      exact .of_atom ⟨rfl, rfl⟩ (taken.trans_lt few)
  | interned => exact .internedString era
  | internedReference =>
      intro state value after result short
      have keeps : Keeps (Read.scalar era start .internedReference) := .scalar era start nofun
      obtain ⟨slots, interned⟩ := keeps.of_ok result
      exact ⟨short.interned value (mem_interned_of_reference result), short.of_eq slots interned⟩
  | reference =>
      intro state value after result short
      have keeps : Keeps (Read.scalar era start .reference) := .scalar era start nofun
      obtain ⟨slots, interned⟩ := keeps.of_ok result
      exact ⟨short.slots value (mem_slots_of_reference result), short.of_eq slots interned⟩

/-! ## Objects -/

section

variable {object : ObjectReader} (secures : Secures object.reader Value.Short)
include secures

theorem repeated (count : Nat) : Secures (object.repeated count) fun values =>
    values.length = count ∧ ∀ value ∈ values, value.Short := by
  induction count with
  | zero => exact .pure ⟨rfl, List.forall_mem_nil _⟩
  | succ count ih =>
      refine secures.bind fun value short => ih.bind fun rest found => .pure ⟨?_, ?_⟩
      · rw [List.length_cons, found.1]
      · exact List.forall_mem_cons.mpr ⟨short, found.2⟩

theorem entries : Secures object.entries fun pairs =>
    ∀ pair ∈ pairs, pair.1.Short ∧ pair.2.Short := by
  intro state
  rw [ObjectReader.entries]
  fun_induction ObjectReader.entriesFrom object state with
  | case1 state error after first =>
      intro pairs final result
      cases result
  | case2 state after first =>
      intro pairs final result short
      cases result
      exact ⟨List.forall_mem_nil _, (secures state _ _ first short).2⟩
  | case3 state key middle isKey first error after second =>
      intro pairs final result
      cases result
  | case4 state key middle isKey first value after second error final rest ih =>
      intro pairs final result
      cases result
  | case5 state key middle isKey first value after second more final rest ih =>
      intro pairs later result short
      cases result
      obtain ⟨keyShort, kept⟩ := secures state _ _ first short
      obtain ⟨valueShort, kept⟩ := secures middle _ _ second kept
      obtain ⟨others, kept⟩ := ih more final rest kept
      exact ⟨List.forall_mem_cons.mpr ⟨⟨keyShort, valueShort⟩, others⟩, kept⟩

theorem content (layout : CodeLayout) (start : Nat) (first : UInt8) :
    Secures (Read.content layout object start first) Value.Short := by
  rw [Read.content]
  split
  · exact .fail _ _
  · exact .scalar _ _ _
  · rename_i kind form _
    refine .bind (.of_keeps (.lengthOf form) (.lengthOf form)) fun declared few => ?_
    refine (secures.repeated declared).bind fun items found => .pure ?_
    exact .wrap (found.1.trans_lt few) found.2
  · exact secures.entries.bind fun pairs short => .pure (.dict short)
  · refine .bind_keeps (.counters layout) fun counters => ?_
    refine (secures.repeated layout.fieldsBeforeLine).bind fun fields found => ?_
    refine .bind_keeps (.counter layout) fun firstLine => secures.bind fun last short => ?_
    have all : ∀ value ∈ fields ++ [last], value.Short :=
      List.forall_mem_append.mpr ⟨found.2, List.forall_mem_singleton.mpr short⟩
    rw [Read.unitOf]
    split
    · exact .fail _ _
    · rename_i listed
      split
      · rename_i made
        exact .pure (Fields.short_of_toUnit listed made all)
      · exact .fail _ _

/-- A flagged object can be referred to once it is complete. -/
theorem objectAbove (layout : CodeLayout) :
    Secures (Read.objectAbove layout object) Value.Short := by
  refine .bind_keeps .offset fun start => .bind_keeps .byte fun first => ?_
  have reserved : Secures (reserveFor first) fun _ => True := by
    intro state slot after result short
    rw [reserveFor_eq] at result
    cases result
    exact ⟨True.intro, forall_mem_slotted short.slots forall_mem_absent, short.interned⟩
  refine reserved.bind fun slot _ => (secures.content layout start first).bind fun value few => ?_
  have settled : Secures (settle slot value) fun _ => True := by
    intro state found after result short
    rw [settle_eq] at result
    cases result
    refine ⟨True.intro, forall_mem_filled short.slots few slot, ?_⟩
    rw [filled_interned]
    exact short.interned
  exact settled.bind fun _ _ => .pure few

end

theorem object (layout : CodeLayout) (levels : Nat) :
    Secures (Read.object layout levels).reader Value.Short := by
  induction levels with
  | zero => exact .bind_keeps .offset fun start => .fail _ _
  | succ levels ih => exact ih.objectAbove layout

end Secures

end Read

/-- What is read is short. -/
theorem short_of_readFirst {version : Version} {stream : List UInt8} {value : Value}
    (result : readFirst version stream = .ok value) : value.Short := by
  have start : (State.start stream).Short :=
    ⟨fun _ absent => absurd absent (Array.not_mem_empty _), Array.forall_mem_empty _⟩
  rw [readFirst, read_eq_descend, descend] at result
  split at result
  · rename_i found after read
    cases result
    exact (Read.Secures.object _ _ _ _ _ read start).1
  · cases result

end Marshal

/-- **The loader guarantees short units.** However a compiled file nests its units, no part of any
of them has `2 ^ 31` entries. -/
theorem Container.allShort_of_load {data : List UInt8} {compiled : CompiledModule}
    (loaded : load data = .ok compiled) {root : CodeUnit}
    (isUnit : compiled.root.unit? = some root) : root.AllShort := by
  have short : compiled.root.Short := by
    unfold load at loaded
    split at loaded
    · cases loaded
    · split at loaded
      · cases loaded
      · dsimp only at loaded
        split at loaded
        · cases loaded
        · split at loaded
          · cases loaded
          · split at loaded
            · cases loaded
            · rename_i read
              cases loaded
              exact Marshal.short_of_readFirst read
  rw [Value.eq_code_of_unit? isUnit] at short
  exact short.allShort

end PycListing
