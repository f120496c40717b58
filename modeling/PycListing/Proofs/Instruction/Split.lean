import PycListing.Proofs.Instruction.Tiling

/-! # Which streams split

A stream splits exactly if it is cut into whole instructions
(`PycListing.RawInstruction.split_eq_ok_iff`). Any other one breaks off: it is whole instructions up
to an opcode that stands without all of its operand, and splitting fails with the offset of that
opcode (`PycListing.RawInstruction.split_eq_error_iff`). Both encodings are split by one step, which
reads as many bytes as the table gives the opcode (`PycListing.RawInstruction.splitRest_next`).
-/

namespace PycListing

theorem Opcode.Table.width_pos (table : Table) (opcode : UInt8) : 0 < table.width opcode := by
  unfold width
  split
  · exact Nat.two_pos
  · split
    · exact Nat.succ_pos 2
    · exact Nat.one_pos

namespace RawInstruction

variable {table : Opcode.Table} {code more operand rest : List UInt8} {held : UInt32}
  {offset stop : Nat} {opcode : UInt8} {raw : RawInstruction} {raws : List RawInstruction}

/-- Splits the rest of a stream in the encoding of a table. -/
def splitRest (table : Opcode.Table) (offset : Nat) (held : UInt32) (bytes : List UInt8) :
    Except Nat (List RawInstruction) :=
  if table.isWordcode then splitWords table offset held bytes
  else splitBytes table offset held bytes

/-! ## One step -/

/-- The instruction that an opcode and its operand make up. -/
def ofBytes (table : Opcode.Table) (offset : Nat) (held : UInt32) (opcode : UInt8)
    (operand : List UInt8) : RawInstruction :=
  ofOperand offset (table.width opcode) opcode (littleEndian operand) held

theorem splitRest_nil : splitRest table offset held [] = .ok [] := by
  rw [splitRest, splitWords, splitBytes, ite_self]

theorem splitRest_short (short : rest.length + 1 < table.width opcode) :
    splitRest table offset held (opcode :: rest) = .error offset := by
  cases words : table.isWordcode with
  | true =>
      rw [Opcode.Table.width_of_words words] at short
      obtain rfl : rest = [] := List.eq_nil_of_length_eq_zero (by omega)
      rw [splitRest, if_pos words, splitWords]
  | false =>
      rw [Opcode.Table.width_of_bytes words] at short
      by_cases takes : Opcode.hasArgument opcode = true
      · rw [if_pos takes] at short
        rw [splitRest, if_neg (Bool.eq_false_iff.mp words), splitBytes.eq_def]
        dsimp only
        rw [if_pos takes]
        rcases rest with _ | ⟨low, _ | ⟨high, rest⟩⟩
        · rfl
        · rfl
        · simp only [List.length_cons] at short
          omega
      · rw [if_neg takes] at short
        omega

theorem splitRest_next (full : operand.length + 1 = table.width opcode) (rest : List UInt8) :
    splitRest table offset held (opcode :: (operand ++ rest)) =
      (splitRest table (offset + table.width opcode)
        ((ofBytes table offset held opcode operand).extension table) rest).map
          (ofBytes table offset held opcode operand :: ·) := by
  cases words : table.isWordcode with
  | true =>
      have width := Opcode.Table.width_of_words words opcode
      rw [width] at full
      obtain ⟨byte, rfl⟩ := List.length_eq_one_iff.mp (Nat.succ.inj full)
      rw [splitRest, splitRest, if_pos words, if_pos words, ofBytes, width, List.singleton_append,
        splitWords]
      rfl
  | false =>
      have bytewise := Bool.eq_false_iff.mp words
      have width := Opcode.Table.width_of_bytes words opcode
      rw [splitRest, splitRest, if_neg bytewise, if_neg bytewise]
      by_cases takes : Opcode.hasArgument opcode = true
      · rw [if_pos takes] at width
        rw [width] at full
        obtain ⟨low, high, rfl⟩ := List.length_eq_two.mp (Nat.succ.inj full)
        rw [ofBytes, width, List.cons_append, List.singleton_append, splitBytes, if_pos takes]
        rfl
      · rw [if_neg takes] at width
        rw [width] at full
        obtain rfl := List.eq_nil_of_length_eq_zero (Nat.succ.inj full)
        rw [ofBytes, width, List.nil_append, splitBytes.eq_def]
        dsimp only
        rw [if_neg takes]
        rfl

/-- Streams are taken apart as they are split: one ends, has too little of an instruction left, or
goes on behind a whole one. -/
@[elab_as_elim]
theorem stream_induction {motive : List UInt8 → Prop} (table : Opcode.Table) (nil : motive [])
    (short : ∀ opcode rest, rest.length + 1 < table.width opcode → motive (opcode :: rest))
    (next : ∀ opcode operand rest, operand.length + 1 = table.width opcode → motive rest →
      motive (opcode :: (operand ++ rest))) (bytes : List UInt8) : motive bytes := by
  induction size : bytes.length using Nat.strong_induction_on generalizing bytes with
  | _ count ih =>
      cases bytes with
      | nil => exact nil
      | cons opcode rest =>
          rcases Nat.lt_or_ge (rest.length + 1) (table.width opcode) with little | enough
          · exact short opcode rest little
          · have positive := table.width_pos opcode
            rw [List.length_cons] at size
            rw [← List.take_append_drop (table.width opcode - 1) rest]
            refine next opcode _ _ ?_ (ih _ ?_ _ rfl)
            · rw [List.length_take_of_le (by omega)]
              omega
            · rw [List.length_drop]
              omega

theorem StandsIn.eq_ofBytes (stands : raw.StandsIn table code held) :
    raw = ofBytes table raw.offset held raw.opcode (raw.operand code) := by
  obtain ⟨offset, size, opcode, arg⟩ := raw
  rw [ofBytes, ofOperand, mk.injEq]
  exact ⟨rfl, stands.size, rfl, stands.arg⟩

/-! ## Cut streams split -/

/-- A cut stream that goes on is split as what it goes on with is, behind what is held by then. -/
theorem Cuts.splitRest_onward (cuts : Cuts table code offset held raws) (more : List UInt8) :
    splitRest table offset held (code.drop offset ++ more) =
      (splitRest table code.length (heldAfter table held raws) more).map (raws ++ ·) := by
  induction cuts with
  | @done held =>
      rw [List.drop_length, List.nil_append]
      change _ = (splitRest table code.length held more).map id
      rw [Except.map_id]
      rfl
  | @next held raw raws stands _ ih =>
      have sized := stands.size
      have full : (raw.operand code).length + 1 = table.width raw.opcode := by
        have positive := table.width_pos raw.opcode
        have length := stands.length_operand
        omega
      rw [stands.drop_eq, List.cons_append, List.append_assoc, splitRest_next full,
        ← stands.eq_ofBytes, ← sized, ← stop, ih, heldAfter_cons]
      cases splitRest table code.length _ more <;> rfl

theorem Cuts.splitRest_append (cuts : Cuts table code offset held raws)
    {result : Except Nat (List RawInstruction)}
    (onward : ∀ held, splitRest table code.length held more = result) :
    splitRest table offset held (code.drop offset ++ more) = result.map (raws ++ ·) := by
  rw [cuts.splitRest_onward, onward]

/-! ## What a stream that does not split looks like -/

/-- A stream is whole instructions up to an offset, where an opcode stands without all of its
operand. -/
def BreaksOff (table : Opcode.Table) (code : List UInt8) (offset : Nat) : Prop :=
  ∃ front opcode rest raws, code = front ++ opcode :: rest ∧ front.length = offset ∧
    Cuts table front 0 0 raws ∧ rest.length + 1 < table.width opcode

/-- The rest of a stream that does not split. The induction is on what is left, with the bytes
before it in hand. -/
theorem exists_of_splitRest_eq_error (before : List UInt8) {bytes : List UInt8}
    (failed : splitRest table before.length held bytes = .error stop) :
    ∃ front opcode rest raws, bytes = front ++ opcode :: rest ∧
      (before ++ front).length = stop ∧ Cuts table (before ++ front) before.length held raws ∧
      rest.length + 1 < table.width opcode := by
  induction bytes using stream_induction table generalizing before held with
  | nil =>
      rw [splitRest_nil] at failed
      cases failed
  | short opcode rest short =>
      rw [splitRest_short short] at failed
      cases failed
      refine ⟨[], opcode, rest, [], rfl, ?_, ?_, short⟩
      · rw [List.append_nil]
      · rw [List.append_nil]
        exact .done
  | next opcode operand others full ih =>
      have here : before.length + table.width opcode = (before ++ opcode :: operand).length := by
        rw [List.length_append, List.length_cons, full]
      rw [splitRest_next full, map_eq_error_iff, here] at failed
      obtain ⟨front, last, rest, raws, rfl, reached, cuts, short⟩ := ih _ failed
      rw [List.append_assoc, List.cons_append] at reached cuts
      rw [← here] at cuts
      have own : (before ++ opcode :: (operand ++ front)).drop before.length =
          opcode :: (operand ++ front) := List.drop_left
      refine ⟨opcode :: (operand ++ front), last, rest, _, ?_, reached,
        cuts_ofOperand own rfl full (fun _ => rfl) fun _ _ => cuts, short⟩
      rw [List.cons_append, List.append_assoc]

/-- A stream splits if and only if it is cut into whole instructions. -/
theorem split_eq_ok_iff : split table code = .ok raws ↔ Cuts table code 0 0 raws := by
  refine ⟨cuts_of_split, fun cuts => ?_⟩
  have whole : splitRest table 0 0 (code.drop 0 ++ []) = .ok (raws ++ []) :=
    cuts.splitRest_append fun _ => splitRest_nil
  rwa [List.append_nil, List.append_nil, List.drop_zero] at whole

/-- A stream does not split if and only if it breaks off, and the error says where. -/
theorem split_eq_error_iff : split table code = .error offset ↔ BreaksOff table code offset := by
  constructor
  · intro failed
    exact exists_of_splitRest_eq_error [] failed
  · rintro ⟨front, opcode, rest, raws, rfl, rfl, cuts, short⟩
    exact cuts.splitRest_append fun _ => splitRest_short short

end RawInstruction

end PycListing
