/-! # Reading bytes in order

A cursor over a byte string. A read takes the next bytes or fails and takes none; two-byte reads
and wider ones are little-endian.
-/

namespace PycListing

/-- A place in a byte string: how many bytes precede it, and those that follow. -/
structure Cursor where
  offset : Nat
  rest : List UInt8
  deriving DecidableEq, Repr

/-- A read that asked for more bytes than were left. -/
structure ShortRead where
  needed : Nat
  offset : Nat
  deriving DecidableEq, Repr

def ShortRead.message (error : ShortRead) : String :=
  "unexpected end of code: need " ++ toString error.needed ++ " bytes at " ++
    toString error.offset

/-- The number that little-endian bytes denote. -/
def littleEndian : List UInt8 → Nat
  | [] => 0
  | b :: rest => b.toNat + 256 * littleEndian rest

namespace Cursor

def start (bytes : List UInt8) : Cursor :=
  ⟨0, bytes⟩

def remaining (cursor : Cursor) : Nat :=
  cursor.rest.length

def isAtEnd (cursor : Cursor) : Bool :=
  cursor.rest.isEmpty

def advance (cursor : Cursor) (count : Nat) : Cursor :=
  ⟨cursor.offset + count, cursor.rest.drop count⟩

/-- Takes the next bytes. It looks at no byte after them. -/
def take (cursor : Cursor) (count : Nat) : Except ShortRead (List UInt8 × Cursor) :=
  let bytes := cursor.rest.take count
  if bytes.length = count then .ok (bytes, cursor.advance count)
  else .error ⟨count, cursor.offset⟩

/-- Takes the next bytes as a little-endian number. -/
def takeNumber (cursor : Cursor) (width : Nat) : Except ShortRead (Nat × Cursor) :=
  (cursor.take width).map fun (bytes, after) => (littleEndian bytes, after)

@[simp] theorem remaining_advance (cursor : Cursor) (count : Nat) :
    (cursor.advance count).remaining = cursor.remaining - count :=
  List.length_drop

/-- A read succeeds exactly when enough bytes are left. -/
theorem take_eq (cursor : Cursor) (count : Nat) :
    cursor.take count =
      if count ≤ cursor.remaining then .ok (cursor.rest.take count, cursor.advance count)
      else .error ⟨count, cursor.offset⟩ := by
  by_cases enough : count ≤ cursor.remaining
  · have full : (cursor.rest.take count).length = count := List.length_take_of_le enough
    simp only [take, full, enough, if_true]
  · have short : (cursor.rest.take count).length ≠ count := by
      rw [List.length_take]
      unfold remaining at enough
      omega
    simp only [take, short, enough, if_false]

@[simp] theorem advance_zero (cursor : Cursor) : cursor.advance 0 = cursor := by
  cases cursor
  rfl

theorem advance_advance (cursor : Cursor) (first second : Nat) :
    (cursor.advance first).advance second = cursor.advance (first + second) := by
  simp only [advance, List.drop_drop, Nat.add_assoc]

end Cursor

end PycListing
