import PycListing.Proofs.Marshal.Step

/-! # What readers are composed of

Every reader is a sequence of a few primitive ones: a number, a payload, a look at a table, a
change of it (`PycListing.Marshal.Read.Composed`). A property of the primitives that sequences
inherit is therefore one of the reader of a step (`PycListing.Marshal.Read.Composed.step`).
-/

namespace PycListing.Marshal

namespace Read

variable {α β : Type}

inductive Composed : {α : Type} → Read α → Prop where
  | pure {α : Type} (value : α) : Composed (Pure.pure value)
  | fail {α : Type} (offset : Nat) (cause : Cause) : Composed (Read.fail offset cause : Read α)
  | offset : Composed Read.offset
  | number (width : Nat) : Composed (Read.number width)
  | payload (length : Nat) : Composed (Read.payload length)
  | reserve : Composed Read.reserve
  | settle (slot : Option Nat) (value : Value) : Composed (Read.settle slot value)
  | intern (value : Value) : Composed (Read.intern value)
  | referred? (index : Int) : Composed (Read.referred? index)
  | internedAt? (index : Int) : Composed (Read.internedAt? index)
  | bind {α β : Type} {reader : Read α} {next : α → Read β} (first : Composed reader)
      (second : ∀ value, Composed (next value)) : Composed (reader >>= next)

namespace Composed

theorem map {reader : Read α} (f : α → β) (composed : Composed reader) :
    Composed (f <$> reader) := by
  rw [map_eq_pure_bind]
  exact composed.bind fun _ => .pure _

/-! ## Leaves -/

theorem byte : Composed Read.byte :=
  .map _ (.number 1)

theorem signed (width : Nat) : Composed (Read.signed width) :=
  .map _ (.number width)

theorem floatBits : Composed Read.floatBits :=
  .map _ (.number 8)

theorem length : Composed Read.length := by
  refine .bind .offset fun _ => .bind (.signed 4) fun value => ?_
  split
  · exact .fail _ _
  · exact .pure _

theorem text (length : Nat) : Composed (Read.text length) := by
  refine .bind .offset fun _ => .bind (.payload length) fun bytes => ?_
  split
  · exact .pure _
  · exact .fail _ _

theorem floatText : Composed Read.floatText := by
  refine .bind .offset fun _ => .bind .byte fun length => .bind (.text _) fun text => ?_
  split
  · exact .pure _
  · exact .fail _ _

theorem longDigits (count : Nat) : Composed (Read.longDigits count) := by
  induction count with
  | zero => exact .pure _
  | succ count ih =>
      refine .bind .offset fun _ => .bind (.signed 2) fun digit => ?_
      split
      · exact .fail _ _
      · exact .bind ih fun _ => .pure _

/-! ## Scalars -/

theorem lengthOf (form : LengthForm) : Composed (Read.lengthOf form) := by
  cases form with
  | short => exact .map _ .byte
  | wide => exact .length

theorem longInteger : Composed Read.longInteger :=
  .bind (.signed 4) fun _ => .bind (.longDigits _) fun _ => .pure _

theorem reference (start : Nat) {look : Int → Read (Option Value)}
    (looks : ∀ index, Composed (look index)) : Composed (Read.reference start look) := by
  refine .bind (.signed 4) fun index => .bind (looks index) fun found => ?_
  split
  · exact .pure _
  · exact .fail _ _

theorem internedString (era : Era) : Composed (Read.internedString era) := by
  refine .bind .length fun count => ?_
  cases era with
  | legacy => exact .bind (.map _ (.payload _)) fun _ => .bind (.intern _) fun _ => .pure _
  | modern => exact .bind (.map _ (.text _)) fun _ => .bind (.intern _) fun _ => .pure _

theorem scalar (era : Era) (start : Nat) (tag : ScalarTag) :
    Composed (Read.scalar era start tag) := by
  cases tag with
  | null => exact .pure _
  | none => exact .pure _
  | bool => exact .pure _
  | stopIteration => exact .pure _
  | ellipsis => exact .pure _
  | int32 => exact .map _ (.signed 4)
  | int64 => exact .map _ (.signed 8)
  | long => exact .longInteger
  | floatText => exact .map _ .floatText
  | floatBits => exact .map _ .floatBits
  | complexText => exact .bind .floatText fun _ => .bind .floatText fun _ => .pure _
  | complexBits => exact .bind .floatBits fun _ => .bind .floatBits fun _ => .pure _
  | bytes => exact .bind .length fun _ => .map _ (.payload _)
  | interned => exact .internedString era
  | internedReference => exact .reference start .internedAt?
  | text form => exact .bind (.lengthOf form) fun _ => .map _ (.text _)
  | reference => exact .reference start .referred?

/-! ## Containers -/

theorem counter (layout : CodeLayout) : Composed (Read.counter layout) :=
  .map _ (.number _)

theorem counters (layout : CodeLayout) : Composed (Read.counters layout) := by
  have others : ∀ argCount kwOnlyArgCount : UInt32, Composed (do
      let localCount ← Read.counter layout
      let stackSize ← Read.counter layout
      let flags ← Read.counter layout
      Pure.pure { argCount, kwOnlyArgCount, localCount, stackSize, flags : Counters }) :=
    fun _ _ => .bind (.counter _) fun _ => .bind (.counter _) fun _ =>
      .bind (.counter _) fun _ => .pure _
  refine .bind (.counter _) fun argCount => ?_
  cases layout with
  | modern => exact .bind (.counter _) fun _ => others _ _
  | long => exact .bind (.pure _) fun _ => others _ _
  | short => exact .bind (.pure _) fun _ => others _ _

theorem accept (layout : CodeLayout) (value : Value) (pending : Pending) :
    Composed (Read.accept layout value pending) := by
  unfold Read.accept
  split
  · exact .pure _
  · exact .pure _
  · split <;> exact .pure _
  · split
    · exact .bind (.counter _) fun _ => .pure _
    · exact .pure _

theorem assemble (layout : CodeLayout) (pending : Pending) :
    Composed (Read.assemble layout pending) := by
  unfold Read.assemble
  split
  · exact .pure _
  · exact .pure _
  · split
    · exact .fail _ _
    · split
      · exact .pure _
      · exact .fail _ _

theorem finish (layout : CodeLayout) (frame : Frame) : Composed (Read.finish layout frame) :=
  .bind (.assemble _ _) fun _ => .bind (.settle _ _) fun _ => .pure _

theorem deliver (layout : CodeLayout) (value : Value) (frames : List Frame) :
    Composed (Read.deliver layout value frames) := by
  induction frames generalizing value with
  | nil => exact .pure _
  | cons frame outer ih =>
      refine .bind (.accept _ _ _) fun (pending, complete) => ?_
      dsimp only
      split
      · exact .bind (.finish _ _) fun _ => ih _
      · exact .pure _

/-! ## Steps -/

theorem reserveFor (first : UInt8) : Composed (Read.reserveFor first) := by
  unfold Read.reserveFor
  split
  · exact .map _ .reserve
  · exact .pure _

theorem settledScalar (layout : CodeLayout) (start : Nat) (slot : Option Nat) (tag : ScalarTag) :
    Composed (Read.settledScalar layout start slot tag) :=
  .bind (.scalar _ _ _) fun _ => .bind (.settle _ _) fun _ => .pure _

theorem element (layout : CodeLayout) (start : Nat) (first : UInt8) (frames : List Frame) :
    Composed (Read.element layout start first frames) := by
  refine .bind (.reserveFor first) fun slot => ?_
  split
  · exact .fail _ _
  · exact .bind (.settledScalar _ _ _ _) fun _ => .deliver _ _ _
  · refine .bind (.lengthOf _) fun declared => ?_
    dsimp only
    split
    · exact .bind (.finish _ _) fun _ => .deliver _ _ _
    · exact .pure _
  · exact .pure _
  · exact .bind (.counters _) fun _ => .pure _

theorem step (layout : CodeLayout) (frames : List Frame) : Composed (Read.step layout frames) := by
  refine .bind .offset fun start => ?_
  split
  · exact .fail _ _
  · exact .bind .byte fun first => .element _ _ _ _

end Composed

end Read

end PycListing.Marshal
