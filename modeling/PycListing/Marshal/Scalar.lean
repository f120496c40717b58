import PycListing.Decimal.Limbs
import PycListing.Marshal.Layout
import PycListing.Marshal.State
import PycListing.Marshal.Tag

/-! # Reading scalars

The objects that hold no others, read after their tag.
-/

namespace PycListing.Marshal

namespace Read

/-- A length in either form. -/
def lengthOf : LengthForm → Read Nat
  | .short => UInt8.toNat <$> byte
  | .wide => length

/-- A long integer: a signed count of digits, whose sign is that of the number, and the digits in
base `2 ^ 15`. -/
def longInteger : Read Value := do
  let count ← signed 4
  let digits ← longDigits count.natAbs
  pure (.long (Decimal.signedText (count < 0) (Nat.pow 2 15) digits))

/-- The object that an index stored in the stream refers to, if `look` finds one. The error points
at the reference. -/
def reference (start : Nat) (look : Int → Read (Option Value)) : Read Value := do
  let index ← signed 4
  match ← look index with
  | some value => pure value
  | none => fail start (.badReference index.natAbs)

/-- An interned string, which joins those that can be referred to. -/
def internedString (era : Era) : Read Value := do
  let count ← length
  let value ← match era with
    | .legacy => Value.bytes <$> payload count
    | .modern => Value.str <$> text count
  intern value
  pure value

/-- The scalar of a tag that stands at `start`. -/
def scalar (era : Era) (start : Nat) : ScalarTag → Read Value
  | .null => pure .null
  | .none => pure .none
  | .bool b => pure (.bool b)
  | .stopIteration => pure .stopIteration
  | .ellipsis => pure .ellipsis
  | .int32 => Value.int <$> signed 4
  | .int64 => Value.int <$> signed 8
  | .long => longInteger
  | .floatText => Value.float <$> floatText
  | .floatBits => Value.float <$> floatBits
  | .complexText => do
    let re ← floatText
    let im ← floatText
    pure (.complex re im)
  | .complexBits => do
    let re ← floatBits
    let im ← floatBits
    pure (.complex re im)
  | .bytes => do
    let count ← length
    Value.bytes <$> payload count
  | .interned => internedString era
  | .internedReference => reference start internedAt?
  | .text form => do
    let count ← lengthOf form
    Value.str <$> text count
  | .reference => reference start referred?

/-! ## Readers of scalars advance -/

theorem Advances.lengthOf (form : LengthForm) : Advances (Read.lengthOf form) := by
  cases form with
  | short => exact .map _ .byte
  | wide => exact .length

theorem Advances.longInteger : Advances Read.longInteger :=
  .bind (.signed 4) fun _ => .bind (.longDigits _) fun _ => .pure _

theorem Advances.reference (start : Nat) {look : Int → Read (Option Value)}
    (advances : ∀ index, Advances (look index)) : Advances (Read.reference start look) := by
  refine .bind (.signed 4) fun index => .bind (advances index) fun found => ?_
  split
  · exact .pure _
  · exact .fail _ _

theorem Advances.internedString (era : Era) : Advances (Read.internedString era) := by
  refine .bind .length fun count => ?_
  cases era with
  | legacy => exact .bind (.map _ (.payload _)) fun _ => .bind (.intern _) fun _ => .pure _
  | modern => exact .bind (.map _ (.text _)) fun _ => .bind (.intern _) fun _ => .pure _

theorem Advances.scalar (era : Era) (start : Nat) (tag : ScalarTag) :
    Advances (Read.scalar era start tag) := by
  cases tag with
  | null => exact .pure _
  | none => exact .pure _
  | bool => exact .pure _
  | stopIteration => exact .pure _
  | ellipsis => exact .pure _
  | int32 => exact .map _ (.signed 4)
  | int64 => exact .map _ (.signed 8)
  | long => exact .longInteger
  | floatText => exact .map _ .floatText
  | floatBits => exact .map _ .floatBits
  | complexText => exact .bind .floatText fun _ => .bind .floatText fun _ => .pure _
  | complexBits => exact .bind .floatBits fun _ => .bind .floatBits fun _ => .pure _
  | bytes => exact .bind .length fun _ => .map _ (.payload _)
  | interned => exact .internedString era
  | internedReference => exact .reference start .internedAt?
  | text form => exact .bind (.lengthOf form) fun _ => .map _ (.text _)
  | reference => exact .reference start .referred?

end Read

end PycListing.Marshal
