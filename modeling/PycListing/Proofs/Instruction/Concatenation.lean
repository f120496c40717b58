import PycListing.Opcode.Modern
import PycListing.Proofs.Instruction.Split

/-! # Splitting streams put together

A stream behind another one is split as it is by itself, only that its instructions, and the offset
where it breaks off, are as far behind as the other one is long
(`PycListing.RawInstruction.splitRest_add`). What the first stream holds for the next argument is
all that crosses the seam, and it holds nothing unless it ends in an instruction that extends
arguments (`PycListing.RawInstruction.heldAfter_eq_zero`). Then the two streams are split apart
(`PycListing.RawInstruction.split_append`).
-/

namespace PycListing.RawInstruction

variable {table : Opcode.Table} {front back operand : List UInt8} {held : UInt32}
  {distance offset : Nat} {opcode : UInt8} {raw : RawInstruction} {raws : List RawInstruction}

/-! ## Behind other bytes -/

/-- The same instruction behind that many more bytes. -/
def shift (distance : Nat) (raw : RawInstruction) : RawInstruction :=
  { raw with offset := distance + raw.offset }

theorem shift_ofBytes : (ofBytes table offset held opcode operand).shift distance =
    ofBytes table (distance + offset) held opcode operand :=
  rfl

theorem extension_shift : (raw.shift distance).extension table = raw.extension table :=
  rfl

/-- What a stream is split into behind that many more bytes. -/
def shiftResult (distance : Nat) :
    Except Nat (List RawInstruction) → Except Nat (List RawInstruction)
  | .ok raws => .ok (raws.map (shift distance))
  | .error stop => .error (distance + stop)

theorem shiftResult_map_cons (result : Except Nat (List RawInstruction)) :
    shiftResult distance (result.map (raw :: ·)) =
      (shiftResult distance result).map (raw.shift distance :: ·) := by
  cases result <;> rfl

/-- Where a stream stands only moves its instructions, and where it breaks off. -/
theorem splitRest_add (distance offset : Nat) (held : UInt32) (bytes : List UInt8) :
    splitRest table (distance + offset) held bytes =
      shiftResult distance (splitRest table offset held bytes) := by
  induction bytes using stream_induction table generalizing offset held with
  | nil =>
      rw [splitRest_nil, splitRest_nil]
      rfl
  | short opcode rest short =>
      rw [splitRest_short short, splitRest_short short]
      rfl
  | next opcode operand rest full ih =>
      rw [splitRest_next full, splitRest_next full, shiftResult_map_cons, ← ih, shift_ofBytes,
        ← shift_ofBytes, extension_shift, Nat.add_assoc]

/-! ## Across the seam -/

/-- Nothing is held behind a stream that does not end in an extending instruction. -/
theorem heldAfter_eq_zero (plain : ∀ last ∈ raws.getLast?, table.extender ≠ some last.opcode) :
    heldAfter table 0 raws = 0 := by
  rcases raws.eq_nil_or_concat with rfl | ⟨others, last, rfl⟩
  · rfl
  · rw [List.concat_eq_append] at plain ⊢
    rw [heldAfter_concat]
    refine extension_of_not_extends fun ⟨extender, _⟩ => ?_
    exact plain last (List.getLast?_concat ..) extender

/-- Streams put together are split into the instructions of the first one, and then into what the
second one is split into behind it. -/
theorem split_append_eq (whole : split table front = .ok raws)
    (plain : ∀ last ∈ raws.getLast?, table.extender ≠ some last.opcode) :
    split table (front ++ back) =
      (shiftResult front.length (split table back)).map (raws ++ ·) := by
  have onward := (split_eq_ok_iff.mp whole).splitRest_onward back
  rw [List.drop_zero, heldAfter_eq_zero plain, ← Nat.add_zero front.length, splitRest_add] at onward
  exact onward

/-- **Splitting is compositional.** Behind a stream that splits, and does not end in an instruction
that extends the next argument, any other one is split as by itself. Its instructions follow those
of the first stream, moved behind it and otherwise unchanged; if it breaks off, so do the two
together, and the error has moved by as much. -/
theorem split_append (whole : split table front = .ok raws)
    (plain : ∀ last ∈ raws.getLast?, table.extender ≠ some last.opcode) :
    (∀ others, split table back = .ok others →
      split table (front ++ back) = .ok (raws ++ others.map (shift front.length))) ∧
    ∀ stop, split table back = .error stop →
      split table (front ++ back) = .error (front.length + stop) := by
  constructor
  · intro others found
    rw [split_append_eq whole plain, found]
    rfl
  · intro stop failed
    rw [split_append_eq whole plain, failed]
    rfl

/-- An extended argument is done with at the seam. What comes behind it splits in one case, and
breaks off in the other. -/
theorem split_append_loaded :
    split (.ofSteps ⟨3, 6⟩ .cpython Opcode.Modern.steps36) ([144, 1, 100, 2] ++ [125, 3]) =
        .ok ([⟨0, 2, 144, some 1⟩, ⟨2, 2, 100, some 258⟩] ++ [⟨4, 2, 125, some 3⟩]) ∧
      split (.ofSteps ⟨3, 6⟩ .cpython Opcode.Modern.steps36) ([144, 1, 100, 2] ++ [125, 3, 83]) =
        .error (4 + 2) := by
  have extender : (Opcode.Table.ofSteps ⟨3, 6⟩ .cpython Opcode.Modern.steps36).extender =
      some 144 := by decide +kernel
  have whole : split (.ofSteps ⟨3, 6⟩ .cpython Opcode.Modern.steps36) [144, 1, 100, 2] =
      .ok [⟨0, 2, 144, some 1⟩, ⟨2, 2, 100, some 258⟩] := by decide +kernel
  have plain : ∀ last ∈ [(⟨0, 2, 144, some 1⟩ : RawInstruction), ⟨2, 2, 100, some 258⟩].getLast?,
      (Opcode.Table.ofSteps ⟨3, 6⟩ .cpython Opcode.Modern.steps36).extender ≠
        some last.opcode := by
    simp [extender]
  constructor
  · exact (split_append whole plain).1 [⟨0, 2, 125, some 3⟩] (by decide +kernel)
  · exact (split_append whole plain).2 2 (by decide +kernel)

end PycListing.RawInstruction
