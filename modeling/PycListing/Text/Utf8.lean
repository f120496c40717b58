/-! # UTF-8

Strict decoding, which refuses a text that is not UTF-8, and lossy decoding, which replaces each
maximal invalid part by U+FFFD.
-/

namespace PycListing.Text

def utf8Bytes (text : String) : List UInt8 :=
  text.toUTF8.data.toList

/-- The text that a byte string encodes, if it is valid UTF-8. -/
def ofUtf8? (bytes : List UInt8) : Option String :=
  String.fromUTF8? bytes.toByteArray

/-- What a lead byte announces: the leading bits of the code point, the number of bytes that
follow, and the range that the first of them must keep. -/
structure Lead where
  bits : Nat
  tails : Nat
  low : UInt8 := 0x80
  high : UInt8 := 0xbf

/-- What a byte of 0x80 or more announces at the start of a character, if it may stand there. The
narrowed ranges exclude overlong forms, surrogates, and code points past U+10FFFF. -/
def lead? (b : UInt8) : Option Lead :=
  if b < 0xc2 then none
  else if b < 0xe0 then some { bits := b.toNat - 0xc0, tails := 1 }
  else if b = 0xe0 then some { bits := 0, tails := 2, low := 0xa0 }
  else if b = 0xed then some { bits := 0xd, tails := 2, high := 0x9f }
  else if b < 0xf0 then some { bits := b.toNat - 0xe0, tails := 2 }
  else if b = 0xf0 then some { bits := 0, tails := 3, low := 0x90 }
  else if b < 0xf4 then some { bits := b.toNat - 0xf0, tails := 3 }
  else if b = 0xf4 then some { bits := 4, tails := 3, high := 0x8f }
  else none

/-- Reads the bytes that follow a lead byte. The first byte that may not stand there is not
consumed, and no code point comes back. -/
def readTails (bits : Nat) (low high : UInt8) : Nat → List UInt8 → Option Nat × List UInt8
  | 0, bytes => (some bits, bytes)
  | _ + 1, [] => (none, [])
  | n + 1, b :: rest =>
    if low ≤ b ∧ b ≤ high then readTails (64 * bits + (b.toNat - 0x80)) 0x80 0xbf n rest
    else (none, b :: rest)

theorem readTails_length_le (bits : Nat) (low high : UInt8) (n : Nat) (bytes : List UInt8) :
    (readTails bits low high n bytes).2.length ≤ bytes.length := by
  fun_induction readTails bits low high n bytes with
  | case1 => exact Nat.le_refl _
  | case2 => exact Nat.le_refl _
  | case3 _ _ _ _ _ rest _ ih => exact Nat.le_succ_of_le ih
  | case4 => exact Nat.le_refl _

/-- The character that a nonempty byte string starts with, `none` for an invalid part, and the
bytes after it. -/
def nextChar (b : UInt8) (rest : List UInt8) : Option Char × List UInt8 :=
  if b < 0x80 then (some (Char.ofNat b.toNat), rest)
  else match lead? b with
    | none => (none, rest)
    | some lead =>
      let (point, rest) := readTails lead.bits lead.low lead.high lead.tails rest
      (point.map Char.ofNat, rest)

theorem nextChar_length_le (b : UInt8) (rest : List UInt8) :
    (nextChar b rest).2.length ≤ rest.length := by
  unfold nextChar
  split
  · exact Nat.le_refl _
  · split
    · exact Nat.le_refl _
    · exact readTails_length_le ..

/-- The characters of a byte string in order, `none` standing for each maximal invalid part. -/
def utf8Chars : List UInt8 → List (Option Char)
  | [] => []
  | b :: rest => (nextChar b rest).1 :: utf8Chars (nextChar b rest).2
termination_by bytes => bytes.length
decreasing_by exact Nat.lt_succ_of_le (nextChar_length_le b rest)

/-- The text of a byte string, with U+FFFD for each maximal invalid part. -/
def ofUtf8Lossy (bytes : List UInt8) : String :=
  String.ofList ((utf8Chars bytes).map (·.getD '\uFFFD'))

end PycListing.Text
