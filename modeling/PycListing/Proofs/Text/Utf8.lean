import PycListing.Text.Utf8
import Mathlib.Data.List.Basic

/-! # Decoding undoes encoding

Both decoders give back the text whose bytes they are given
(`PycListing.Text.ofUtf8?_utf8Bytes`, `PycListing.Text.ofUtf8Lossy_utf8Bytes`); for the lossy one
the proof goes character by character, by the number of bytes that a character takes.
-/

namespace PycListing.Text

theorem utf8Bytes_eq_flatMap (text : String) :
    utf8Bytes text = text.toList.flatMap String.utf8EncodeChar := by
  rw [utf8Bytes, String.toUTF8_eq_toByteArray, ← String.utf8Encode_toList, List.utf8Encode,
    List.toList_data_toByteArray]

theorem ofUtf8?_utf8Bytes (text : String) : ofUtf8? (utf8Bytes text) = some text := by
  have bytes : (utf8Bytes text).toByteArray = text.toByteArray := by
    rw [utf8Bytes_eq_flatMap, ← String.utf8Encode_toList]
    rfl
  rw [ofUtf8?, bytes, String.fromUTF8?, dif_pos text.isValidUTF8]
  rfl

theorem utf8Bytes_of_ofUtf8? {bytes : List UInt8} {text : String}
    (decoded : ofUtf8? bytes = some text) : utf8Bytes text = bytes := by
  rw [ofUtf8?, String.fromUTF8?] at decoded
  split at decoded
  · cases decoded
    exact List.toList_data_toByteArray
  · cases decoded

/-! ## Lossy decoding -/

/-- A byte that may stand at its place joins its six bits to those read before. -/
private theorem readTails_cons {bits tails x : Nat} {low high : UInt8} (rest : List UInt8)
    (small : x < 64) (above : low.toNat ≤ x + 128) (below : x + 128 ≤ high.toNat) :
    readTails bits low high (tails + 1) (UInt8.ofNat (x + 0x80) :: rest) =
      readTails (64 * bits + x) 0x80 0xbf tails rest := by
  have value : (UInt8.ofNat (x + 0x80)).toNat = x + 128 := by
    rw [UInt8.toNat_ofNat']
    omega
  have bounds : low ≤ UInt8.ofNat (x + 0x80) ∧ UInt8.ofNat (x + 0x80) ≤ high := by
    rw [UInt8.le_iff_toNat_le, UInt8.le_iff_toNat_le, value]
    exact ⟨above, below⟩
  rw [readTails, if_pos bounds, value, Nat.add_sub_cancel]

/-- What a lead byte announces, by its value as a number. -/
private theorem lead?_ofNat {x : Nat} (small : x < 256) :
    lead? (UInt8.ofNat x) =
      if x < 0xc2 then none
      else if x < 0xe0 then some { bits := x - 0xc0, tails := 1 }
      else if x = 0xe0 then some { bits := 0, tails := 2, low := 0xa0 }
      else if x = 0xed then some { bits := 0xd, tails := 2, high := 0x9f }
      else if x < 0xf0 then some { bits := x - 0xe0, tails := 2 }
      else if x = 0xf0 then some { bits := 0, tails := 3, low := 0x90 }
      else if x < 0xf4 then some { bits := x - 0xf0, tails := 3 }
      else if x = 0xf4 then some { bits := 4, tails := 3, high := 0x8f }
      else none := by
  have value : (UInt8.ofNat x).toNat = x := by
    rw [UInt8.toNat_ofNat']
    omega
  simp only [lead?, UInt8.lt_iff_toNat_lt, ← UInt8.toNat_inj, value, UInt8.reduceToNat]

private theorem nextChar_ofNat {x bits tails : Nat} {low high : UInt8} (large : 0x80 ≤ x)
    (small : x < 256) (announced : lead? (UInt8.ofNat x) = some ⟨bits, tails, low, high⟩)
    (rest : List UInt8) :
    nextChar (UInt8.ofNat x) rest =
      ((readTails bits low high tails rest).1.map Char.ofNat,
        (readTails bits low high tails rest).2) := by
  have value : (UInt8.ofNat x).toNat = x := by
    rw [UInt8.toNat_ofNat']
    omega
  have notAscii : ¬UInt8.ofNat x < 0x80 := by
    rw [UInt8.lt_iff_toNat_lt, value]
    exact Nat.not_lt.mpr large
  rw [nextChar, if_neg notAscii, announced]

private theorem nextChar_one {x : Nat} (small : x < 0x80) (rest : List UInt8) :
    nextChar (UInt8.ofNat x) rest = (some (Char.ofNat x), rest) := by
  have value : (UInt8.ofNat x).toNat = x := by
    rw [UInt8.toNat_ofNat']
    omega
  have ascii : UInt8.ofNat x < 0x80 := by
    rw [UInt8.lt_iff_toNat_lt, value]
    exact small
  rw [nextChar, if_pos ascii, value]

private theorem nextChar_two {x y : Nat} (low : 2 ≤ x) (high : x < 32) (tail : y < 64)
    (rest : List UInt8) :
    nextChar (UInt8.ofNat (x + 0xc0)) (UInt8.ofNat (y + 0x80) :: rest) =
      (some (Char.ofNat (64 * x + y)), rest) := by
  have announced : lead? (UInt8.ofNat (x + 0xc0)) = some ⟨x, 1, 0x80, 0xbf⟩ := by
    rw [lead?_ofNat (by omega), if_neg (by omega), if_pos (by omega), Nat.add_sub_cancel]
  rw [nextChar_ofNat (by omega) (by omega) announced,
    readTails_cons rest tail (Nat.le_add_left _ _)
      (Nat.add_le_add_right (Nat.le_of_lt_succ tail) _)]
  rfl

private theorem nextChar_three {x y z : Nat} (high : x < 16) (tail : y < 64) (last : z < 64)
    (long : x = 0 → 32 ≤ y) (noSurrogate : x = 13 → y < 32) (rest : List UInt8) :
    nextChar (UInt8.ofNat (x + 0xe0)) (UInt8.ofNat (y + 0x80) :: UInt8.ofNat (z + 0x80) :: rest) =
      (some (Char.ofNat (64 * (64 * x + y) + z)), rest) := by
  have announced : ∃ low high : UInt8, lead? (UInt8.ofNat (x + 0xe0)) = some ⟨x, 2, low, high⟩ ∧
      low.toNat ≤ y + 128 ∧ y + 128 ≤ high.toNat := by
    rw [lead?_ofNat (by omega), if_neg (by omega), if_neg (by omega)]
    by_cases zero : x = 0
    · subst zero
      exact ⟨0xa0, 0xbf, rfl, Nat.add_le_add_right (long rfl) 128,
        Nat.add_le_add_right (Nat.le_of_lt_succ tail) 128⟩
    rw [if_neg (by omega)]
    by_cases thirteen : x = 13
    · subst thirteen
      exact ⟨0x80, 0x9f, rfl, Nat.le_add_left _ _,
        Nat.add_le_add_right (Nat.le_of_lt_succ (noSurrogate rfl)) 128⟩
    rw [if_neg (by omega), if_pos (by omega), Nat.add_sub_cancel]
    exact ⟨0x80, 0xbf, rfl, Nat.le_add_left _ _,
      Nat.add_le_add_right (Nat.le_of_lt_succ tail) 128⟩
  rcases announced with ⟨low, high, announced, above, below⟩
  rw [nextChar_ofNat (by omega) (by omega) announced, readTails_cons _ tail above below,
    readTails_cons rest last (Nat.le_add_left _ _)
      (Nat.add_le_add_right (Nat.le_of_lt_succ last) _)]
  rfl

private theorem nextChar_four {x y z w : Nat} (high : x ≤ 4) (tail : y < 64) (third : z < 64)
    (last : w < 64) (long : x = 0 → 16 ≤ y) (inRange : x = 4 → y < 16) (rest : List UInt8) :
    nextChar (UInt8.ofNat (x + 0xf0))
        (UInt8.ofNat (y + 0x80) :: UInt8.ofNat (z + 0x80) :: UInt8.ofNat (w + 0x80) :: rest) =
      (some (Char.ofNat (64 * (64 * (64 * x + y) + z) + w)), rest) := by
  have announced : ∃ low high : UInt8, lead? (UInt8.ofNat (x + 0xf0)) = some ⟨x, 3, low, high⟩ ∧
      low.toNat ≤ y + 128 ∧ y + 128 ≤ high.toNat := by
    rw [lead?_ofNat (by omega), if_neg (by omega), if_neg (by omega), if_neg (by omega),
      if_neg (by omega), if_neg (by omega)]
    by_cases zero : x = 0
    · subst zero
      exact ⟨0x90, 0xbf, rfl, Nat.add_le_add_right (long rfl) 128,
        Nat.add_le_add_right (Nat.le_of_lt_succ tail) 128⟩
    rw [if_neg (by omega)]
    by_cases four : x = 4
    · subst four
      exact ⟨0x80, 0x8f, rfl, Nat.le_add_left _ _,
        Nat.add_le_add_right (Nat.le_of_lt_succ (inRange rfl)) 128⟩
    rw [if_pos (by omega), Nat.add_sub_cancel]
    exact ⟨0x80, 0xbf, rfl, Nat.le_add_left _ _,
      Nat.add_le_add_right (Nat.le_of_lt_succ tail) 128⟩
  rcases announced with ⟨low, high, announced, above, below⟩
  rw [nextChar_ofNat (by omega) (by omega) announced, readTails_cons _ tail above below,
    readTails_cons _ third (Nat.le_add_left _ _)
      (Nat.add_le_add_right (Nat.le_of_lt_succ third) _),
    readTails_cons rest last (Nat.le_add_left _ _)
      (Nat.add_le_add_right (Nat.le_of_lt_succ last) _)]
  rfl

theorem utf8Chars_utf8EncodeChar_append (c : Char) (rest : List UInt8) :
    utf8Chars (String.utf8EncodeChar c ++ rest) = some c :: utf8Chars rest := by
  have valid : c.val.toNat < 0xd800 ∨ 0xdfff < c.val.toNat ∧ c.val.toNat < 0x110000 := c.valid
  have back : Char.ofNat c.val.toNat = c := Char.ofNat_toNat c
  simp only [String.utf8EncodeChar]
  generalize c.val.toNat = v at valid back
  by_cases one : v ≤ 0x7f
  · rw [if_pos one, List.singleton_append, utf8Chars, nextChar_one (Nat.lt_succ_of_le one), back]
  rw [if_neg one]
  by_cases two : v ≤ 0x7ff
  · have value : 64 * (v / 64 % 0x20) + v % 0x40 = v := by omega
    rw [if_pos two, List.cons_append, List.cons_append, List.nil_append, utf8Chars,
      nextChar_two (by omega) (by omega) (by omega), value, back]
  rw [if_neg two]
  by_cases three : v ≤ 0xffff
  · have value : 64 * (64 * (v / 4096 % 0x10) + v / 64 % 0x40) + v % 0x40 = v := by omega
    rw [if_pos three, List.cons_append, List.cons_append, List.cons_append, List.nil_append,
      utf8Chars, nextChar_three (by omega) (by omega) (by omega) (by omega) (by omega), value, back]
  · have value : 64 * (64 * (64 * (v / 262144 % 0x8) + v / 4096 % 0x40) + v / 64 % 0x40) +
        v % 0x40 = v := by omega
    rw [if_neg three, List.cons_append, List.cons_append, List.cons_append, List.cons_append,
      List.nil_append, utf8Chars, nextChar_four (by omega) (by omega) (by omega) (by omega)
      (by omega) (by omega), value, back]

/-- Lossy decoding loses nothing of a text. -/
theorem ofUtf8Lossy_utf8Bytes (text : String) : ofUtf8Lossy (utf8Bytes text) = text := by
  have chars : ∀ cs : List Char, utf8Chars (cs.flatMap String.utf8EncodeChar) = cs.map some := by
    intro cs
    induction cs with
    | nil => rw [List.flatMap_nil, utf8Chars, List.map_nil]
    | cons c cs ih => rw [List.flatMap_cons, utf8Chars_utf8EncodeChar_append, ih, List.map_cons]
  rw [ofUtf8Lossy, utf8Bytes_eq_flatMap, chars, List.map_map]
  have same : ((fun c : Option Char => c.getD '\uFFFD') ∘ some) = id := rfl
  rw [same, List.map_id, String.ofList_toList]

end PycListing.Text
