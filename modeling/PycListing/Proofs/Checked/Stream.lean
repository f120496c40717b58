import PycListing.Proofs.Checked.Word
import PycListing.Proofs.Instruction.Tiling

/-! # Splitting within limits

A stream is split by a reader that keeps its place in a word and cuts the bytes it reads out of the
stream. Each instruction moves the reader forward (`PycListing.Checked.remaining_of_next`), and on a
stream that is short enough for its places to fit their words no step stops
(`PycListing.Checked.split_eq`).
-/

namespace PycListing

namespace Checked

/-! ## Reading the stream -/

/-- A place in a stream. -/
structure Reader where
  data : List UInt8
  offset : Nat

namespace Reader

def remaining (reader : Reader) : Nat :=
  reader.data.length - reader.offset

/-- Reads some bytes, if the stream has as many. -/
def read (reader : Reader) (count : Nat) : Except Fault (Option (List UInt8 × Reader)) :=
  if reader.remaining < count then pure none
  else do
    let stop ← add reader.offset count
    let bytes ← slice reader.data reader.offset stop
    pure (some (bytes, { reader with offset := stop }))

def byte (reader : Reader) : Except Fault (Option (UInt8 × Reader)) := do
  match ← reader.read 1 with
  | none => pure none
  | some (bytes, after) =>
    let byte ← item bytes 0
    pure (some (byte, after))

/-- Reads a number of two bytes. -/
def pair (reader : Reader) : Except Fault (Option (Nat × Reader)) := do
  match ← reader.read 2 with
  | none => pure none
  | some (bytes, after) =>
    let low ← item bytes 0
    let high ← item bytes 1
    pure (some (littleEndian [low, high], after))

variable {data : List UInt8} {offset : Nat}

theorem read_eq_none {count : Nat} (short : data.length - offset < count) :
    read ⟨data, offset⟩ count = .ok none :=
  if_pos short

theorem read_of_le {count : Nat} (small : data.length < 2 ^ 64) (within : offset ≤ data.length)
    (enough : count ≤ data.length - offset) :
    read ⟨data, offset⟩ count =
      .ok (some ((data.drop offset).take count, ⟨data, offset + count⟩)) := by
  have stays : ¬remaining ⟨data, offset⟩ < count := Nat.not_lt.mpr enough
  have fits : offset + count < 2 ^ 64 := by omega
  have taken : (data.take (offset + count)).drop offset = (data.drop offset).take count := by
    rw [List.drop_take, Nat.add_sub_cancel_left]
  rw [read, if_neg stays]
  dsimp only
  rw [add_eq fits, bind_ok, slice_eq (Nat.le_add_right _ _) (by omega), taken]
  rfl

theorem read_eq {count : Nat} {bytes rest : List UInt8} (small : data.length < 2 ^ 64)
    (front : data.drop offset = bytes ++ rest) (full : bytes.length = count) (some : 0 < count) :
    read ⟨data, offset⟩ count = .ok (.some (bytes, ⟨data, offset + count⟩)) := by
  have lengths := congrArg List.length front
  rw [List.length_drop, List.length_append] at lengths
  rw [read_of_le small (by omega) (by omega), front, ← full, List.take_left]

theorem byte_eq {next : UInt8} {rest : List UInt8} (small : data.length < 2 ^ 64)
    (front : data.drop offset = next :: rest) :
    byte ⟨data, offset⟩ = .ok (some (next, ⟨data, offset + 1⟩)) := by
  have single : data.drop offset = [next] ++ rest := front
  have one : [next].length = 1 := rfl
  rw [byte, read_eq small single one Nat.one_pos]
  rfl

theorem pair_eq {low high : UInt8} {rest : List UInt8} (small : data.length < 2 ^ 64)
    (front : data.drop offset = low :: high :: rest) :
    pair ⟨data, offset⟩ = .ok (some (littleEndian [low, high], ⟨data, offset + 2⟩)) := by
  have both : data.drop offset = [low, high] ++ rest := front
  have two : [low, high].length = 2 := rfl
  rw [pair, read_eq small both two Nat.two_pos]
  rfl

theorem byte_eq_none (short : data.length - offset < 1) : byte ⟨data, offset⟩ = .ok none := by
  rw [byte, read_eq_none short]
  rfl

theorem pair_eq_none (short : data.length - offset < 2) : pair ⟨data, offset⟩ = .ok none := by
  rw [pair, read_eq_none short]
  rfl

/-! ## Reading moves forward -/

variable {reader after : Reader}

theorem remaining_of_read {count : Nat} {bytes : List UInt8}
    (found : reader.read count = .ok (some (bytes, after))) :
    after.remaining + count = reader.remaining := by
  rw [read] at found
  split at found
  · cases found
  · rename_i enough
    obtain ⟨stop, summed, found⟩ := except_bind_eq_ok found
    obtain ⟨taken, sliced, found⟩ := except_bind_eq_ok found
    cases found
    obtain rfl := eq_add summed
    unfold remaining at enough ⊢
    dsimp only
    omega

theorem remaining_of_byte {next : UInt8} (found : reader.byte = .ok (some (next, after))) :
    after.remaining + 1 = reader.remaining := by
  obtain ⟨result, read, found⟩ := except_bind_eq_ok found
  rcases result with _ | ⟨bytes, behind⟩
  · cases found
  · obtain ⟨byte, taken, found⟩ := except_bind_eq_ok found
    cases found
    exact remaining_of_read read

theorem remaining_of_pair {number : Nat} (found : reader.pair = .ok (some (number, after))) :
    after.remaining + 2 = reader.remaining := by
  obtain ⟨result, read, found⟩ := except_bind_eq_ok found
  rcases result with _ | ⟨bytes, behind⟩
  · cases found
  · obtain ⟨low, taken, found⟩ := except_bind_eq_ok found
    obtain ⟨high, taken, found⟩ := except_bind_eq_ok found
    cases found
    exact remaining_of_read read

end Reader

/-! ## Splitting -/

/-- Reads what stands behind an opcode, given what extends its argument. -/
def operand (table : Opcode.Table) (held : UInt32) (opcode : UInt8) (reader : Reader) :
    Except Fault (Option (Option UInt32 × Reader)) :=
  if table.isWordcode then do
    match ← reader.byte with
    | none => pure none
    | some (byte, after) =>
      let arg := if Opcode.hasArgument opcode then some (byte.toNat.toUInt32 ||| held) else none
      pure (some (arg, after))
  else if Opcode.hasArgument opcode then do
    match ← reader.pair with
    | none => pure none
    | some (number, after) => pure (some (some (number.toUInt32 ||| held), after))
  else pure (some (none, reader))

/-- Reads an instruction, none if the stream ends within it. -/
def next (table : Opcode.Table) (held : UInt32) (reader : Reader) :
    Except Fault (Option (RawInstruction × Reader)) := do
  match ← reader.byte with
  | none => pure none
  | some (opcode, behind) =>
    match ← operand table held opcode behind with
    | none => pure none
    | some (arg, after) =>
      let size ← sub after.offset reader.offset
      pure (some ({ offset := reader.offset, size, opcode, arg }, after))

theorem remaining_of_operand {table : Opcode.Table} {held : UInt32} {opcode : UInt8}
    {reader after : Reader} {arg : Option UInt32}
    (found : operand table held opcode reader = .ok (some (arg, after))) :
    after.remaining ≤ reader.remaining := by
  rw [operand] at found
  split at found
  · obtain ⟨result, read, found⟩ := except_bind_eq_ok found
    rcases result with _ | ⟨byte, behind⟩
    · cases found
    · cases found
      have moved := Reader.remaining_of_byte read
      omega
  · split at found
    · obtain ⟨result, read, found⟩ := except_bind_eq_ok found
      rcases result with _ | ⟨number, behind⟩
      · cases found
      · cases found
        have moved := Reader.remaining_of_pair read
        omega
    · cases found
      exact Nat.le_refl _

theorem remaining_of_next {table : Opcode.Table} {held : UInt32} {reader after : Reader}
    {raw : RawInstruction} (found : next table held reader = .ok (some (raw, after))) :
    after.remaining < reader.remaining := by
  obtain ⟨result, read, found⟩ := except_bind_eq_ok found
  rcases result with _ | ⟨opcode, behind⟩
  · cases found
  · have moved := Reader.remaining_of_byte read
    obtain ⟨result, readArg, found⟩ := except_bind_eq_ok found
    rcases result with _ | ⟨arg, last⟩
    · cases found
    · have onward := remaining_of_operand readArg
      obtain ⟨size, _, found⟩ := except_bind_eq_ok found
      cases found
      omega

/-- Splits the rest of a stream. The error is the offset of an instruction that the stream ends
within. -/
def splitFrom (table : Opcode.Table) (held : UInt32) (reader : Reader) :
    Except Fault (Except Nat (List RawInstruction)) :=
  if reader.remaining = 0 then pure (.ok [])
  else
    match _found : next table held reader with
    | .error fault => .error fault
    | .ok none => pure (.error reader.offset)
    | .ok (some (raw, after)) =>
      (splitFrom table (raw.extension table) after).map (Except.map (raw :: ·))
termination_by reader.remaining
decreasing_by exact remaining_of_next _found

def split (table : Opcode.Table) (code : List UInt8) :
    Except Fault (Except Nat (List RawInstruction)) :=
  splitFrom table 0 ⟨code, 0⟩

variable {table : Opcode.Table} {held : UInt32} {code : List UInt8}

theorem splitFrom_eq (table : Opcode.Table) (held : UInt32) (reader : Reader) :
    splitFrom table held reader =
      if reader.remaining = 0 then .ok (.ok [])
      else
        match next table held reader with
        | .error fault => .error fault
        | .ok none => .ok (.error reader.offset)
        | .ok (some (raw, after)) =>
          (splitFrom table (raw.extension table) after).map (Except.map (raw :: ·)) := by
  rw [splitFrom]
  split
  · rfl
  · split <;> rename_i found <;> simp only [found, pure_eq]

theorem splitFrom_of_nil {offset : Nat} (front : code.drop offset = []) :
    splitFrom table held ⟨code, offset⟩ = .ok (.ok []) := by
  have stop : Reader.remaining ⟨code, offset⟩ = 0 :=
    Nat.sub_eq_zero_of_le (List.drop_eq_nil_iff.mp front)
  rw [splitFrom_eq, if_pos stop]

theorem remaining_ne_zero {offset : Nat} {first : UInt8} {rest : List UInt8}
    (front : code.drop offset = first :: rest) : Reader.remaining ⟨code, offset⟩ ≠ 0 := by
  rw [Reader.remaining, ← List.length_drop, front, List.length_cons]
  exact Nat.succ_ne_zero _

theorem splitFrom_of_none {offset : Nat} {first : UInt8} {rest : List UInt8}
    (front : code.drop offset = first :: rest)
    (short : next table held ⟨code, offset⟩ = .ok none) :
    splitFrom table held ⟨code, offset⟩ = .ok (.error offset) := by
  rw [splitFrom_eq, if_neg (remaining_ne_zero front), short]

theorem splitFrom_of_some {offset : Nat} {first : UInt8} {rest : List UInt8}
    {raw : RawInstruction} {after : Reader} (front : code.drop offset = first :: rest)
    (found : next table held ⟨code, offset⟩ = .ok (some (raw, after))) :
    splitFrom table held ⟨code, offset⟩ =
      (splitFrom table (raw.extension table) after).map (Except.map (raw :: ·)) := by
  rw [splitFrom_eq, if_neg (remaining_ne_zero front), found]

/-- An instruction whose bytes come next is read. -/
theorem next_eq {offset size : Nat} {opcode : UInt8} {arg : Option UInt32} {rest : List UInt8}
    (small : code.length < 2 ^ 64) (front : code.drop offset = opcode :: rest)
    (read : operand table held opcode ⟨code, offset + 1⟩ =
      .ok (some (arg, ⟨code, offset + size⟩))) :
    next table held ⟨code, offset⟩ =
      .ok (some (⟨offset, size, opcode, arg⟩, ⟨code, offset + size⟩)) := by
  rw [next, Reader.byte_eq small front, bind_ok]
  dsimp only
  rw [read, bind_ok]
  dsimp only
  rw [sub_eq (Nat.le_add_right _ _), Nat.add_sub_cancel_left]
  rfl

theorem next_eq_none {offset : Nat} {opcode : UInt8} {rest : List UInt8}
    (small : code.length < 2 ^ 64) (front : code.drop offset = opcode :: rest)
    (short : operand table held opcode ⟨code, offset + 1⟩ = .ok none) :
    next table held ⟨code, offset⟩ = .ok none := by
  rw [next, Reader.byte_eq small front, bind_ok]
  dsimp only
  rw [short]
  rfl

theorem drop_succ_of_cons {offset : Nat} {first : UInt8} {rest : List UInt8}
    (front : code.drop offset = first :: rest) : code.drop (offset + 1) = rest := by
  rw [← List.drop_drop, front]
  rfl

theorem splitFrom_of_words (words : table.isWordcode = true) {offset : Nat} {bytes : List UInt8}
    (small : code.length < 2 ^ 64) (front : code.drop offset = bytes) :
    splitFrom table held ⟨code, offset⟩ =
      .ok (RawInstruction.splitWords table offset held bytes) := by
  fun_induction RawInstruction.splitWords table offset held bytes with
  | case1 offset held => exact splitFrom_of_nil front
  | case2 offset held opcode =>
      have behind := drop_succ_of_cons front
      have short : operand table held opcode ⟨code, offset + 1⟩ = .ok none := by
        have none : code.length - (offset + 1) < 1 := by
          rw [← List.length_drop, behind]
          exact Nat.one_pos
        rw [operand, if_pos words, Reader.byte_eq_none none]
        rfl
      exact splitFrom_of_none front (next_eq_none small front short)
  | case3 offset held opcode low rest raw =>
      rename_i ih
      have behind := drop_succ_of_cons front
      have read : operand table held opcode ⟨code, offset + 1⟩ =
          .ok (some (raw.arg, ⟨code, offset + 2⟩)) := by
        rw [operand, if_pos words, Reader.byte_eq small behind]
        rfl
      rw [splitFrom_of_some front (next_eq small front read)]
      have others := ih (drop_succ_of_cons behind)
      change splitFrom table (raw.extension table) ⟨code, offset + 2⟩ = _ at others
      change (splitFrom table (raw.extension table) ⟨code, offset + 2⟩).map _ = _
      rw [others]
      rfl

theorem splitFrom_of_bytes (bytewise : table.isWordcode = false) {offset : Nat}
    {bytes : List UInt8} (small : code.length < 2 ^ 64) (front : code.drop offset = bytes) :
    splitFrom table held ⟨code, offset⟩ =
      .ok (RawInstruction.splitBytes table offset held bytes) := by
  have plain : ¬table.isWordcode = true := Bool.eq_false_iff.mp bytewise
  fun_induction RawInstruction.splitBytes table offset held bytes with
  | case1 offset held => exact splitFrom_of_nil front
  | case2 offset held opcode takes low high rest raw =>
      rename_i ih
      have behind := drop_succ_of_cons front
      have read : operand table held opcode ⟨code, offset + 1⟩ =
          .ok (some (raw.arg, ⟨code, offset + 3⟩)) := by
        have given : raw.arg = some ((littleEndian [low, high]).toUInt32 ||| held) := if_pos takes
        rw [operand, if_neg plain, if_pos takes, Reader.pair_eq small behind, given]
        rfl
      rw [splitFrom_of_some front (next_eq small front read)]
      have others := ih (drop_succ_of_cons (drop_succ_of_cons behind))
      change splitFrom table (raw.extension table) ⟨code, offset + 3⟩ = _ at others
      change (splitFrom table (raw.extension table) ⟨code, offset + 3⟩).map _ = _
      rw [others]
      rfl
  | case3 offset held opcode rest takes cut =>
      have behind := drop_succ_of_cons front
      have short : operand table held opcode ⟨code, offset + 1⟩ = .ok none := by
        have none : code.length - (offset + 1) < 2 := by
          rw [← List.length_drop, behind]
          rcases rest with _ | ⟨low, _ | ⟨high, rest⟩⟩
          · exact Nat.two_pos
          · exact Nat.one_lt_two
          · exact absurd rfl (cut low high rest)
        rw [operand, if_neg plain, if_pos takes, Reader.pair_eq_none none]
        rfl
      exact splitFrom_of_none front (next_eq_none small front short)
  | case4 offset held opcode rest none raw =>
      rename_i ih
      have read : operand table held opcode ⟨code, offset + 1⟩ =
          .ok (some (raw.arg, ⟨code, offset + 1⟩)) := by
        have given : raw.arg = .none := if_neg none
        rw [operand, if_neg plain, if_neg none, given]
        rfl
      rw [splitFrom_of_some front (next_eq small front read)]
      have others := ih (drop_succ_of_cons front)
      change splitFrom table (raw.extension table) ⟨code, offset + 1⟩ = _ at others
      change (splitFrom table (raw.extension table) ⟨code, offset + 1⟩).map _ = _
      rw [others]
      rfl

/-- A short stream is split within limits. -/
theorem split_eq (table : Opcode.Table) {code : List UInt8} (small : code.length < 2 ^ 31) :
    split table code = .ok (RawInstruction.split table code) := by
  have fits : code.length < 2 ^ 64 := small.trans (by decide)
  rw [split, RawInstruction.split]
  cases words : table.isWordcode with
  | true => exact splitFrom_of_words words fits rfl
  | false => exact splitFrom_of_bytes words fits rfl

end Checked

end PycListing
