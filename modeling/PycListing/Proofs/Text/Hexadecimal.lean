import PycListing.Proofs.Text.Quoted

/-! # Reading hexadecimal numbers

A number in hexadecimal is read digit by digit. Leading zeros do not change it, so a number is read
back whatever width it was padded to (`PycListing.Text.prefixedNumber?_hex`).
-/

namespace PycListing.Text

/-- The number that digits stand for behind another number. -/
def hexNumberFrom? (n : Nat) (digits : List Char) : Option Nat :=
  digits.foldlM (fun n c => (hexDigit? c).map (16 * n + ·)) n

/-- The number that is spelled by `0x` and digits. -/
def prefixedNumber? : List Char → Option Nat
  | '0' :: 'x' :: digits => if digits = [] then none else hexNumberFrom? 0 digits
  | _ => none

theorem hexNumberFrom?_append (n : Nat) (first second : List Char) :
    hexNumberFrom? n (first ++ second) =
      (hexNumberFrom? n first).bind fun m => hexNumberFrom? m second :=
  List.foldlM_append

theorem hexNumberFrom?_zeros (count : Nat) :
    hexNumberFrom? 0 (List.replicate count '0') = some 0 := by
  induction count with
  | zero => rfl
  | succ count ih => exact ih

theorem hexNumberFrom?_digit (n : Nat) {digit : Nat} (small : digit < 16) :
    hexNumberFrom? n [Nat.digitChar digit] = some (16 * n + digit) := by
  rw [hexNumberFrom?, List.foldlM_cons, hexDigit?_digitChar small]
  rfl

/-- The digits of a number are read back to it. The induction takes the last digit off. -/
theorem hexNumberFrom?_toDigits (n : Nat) : hexNumberFrom? 0 (Nat.toDigits 16 n) = some n := by
  induction n using Nat.strongRecOn with
  | _ n ih =>
      by_cases single : n < 16
      · rw [Nat.toDigits_of_lt_base single, hexNumberFrom?_digit 0 single, Nat.mul_zero,
          Nat.zero_add]
      · have large : 16 ≤ n := Nat.le_of_not_lt single
        have shorter : n / 16 < n := Nat.div_lt_self (by omega) (by decide)
        rw [Nat.toDigits_of_base_le (by decide) large, hexNumberFrom?_append, ih _ shorter,
          Option.bind_some, hexNumberFrom?_digit _ (Nat.mod_lt n (by decide)), Nat.div_add_mod]

theorem space_not_mem_of_hexNumberFrom? {n number : Nat} {digits : List Char}
    (read : hexNumberFrom? n digits = some number) : ' ' ∉ digits := by
  induction digits generalizing n with
  | nil => exact List.not_mem_nil
  | cons c digits ih =>
      obtain ⟨next, here, others⟩ := Option.bind_eq_some_iff.mp read
      rintro (_ | ⟨_, later⟩)
      · cases here
      · exact ih others later

theorem space_not_mem_of_prefixedNumber? {text : List Char} {number : Nat}
    (read : prefixedNumber? text = some number) : ' ' ∉ text := by
  unfold prefixedNumber? at read
  split at read
  · split at read
    · cases read
    · have solid := space_not_mem_of_hexNumberFrom? read
      simp only [List.mem_cons, solid, or_false, not_or]
      exact ⟨by decide, by decide⟩
  · cases read

theorem prefixedNumber?_hex (width n : Nat) :
    prefixedNumber? ("0x" ++ hex width n).toList = some n := by
  have digits : (hex width n).toList =
      List.replicate (width - (Nat.toDigits 16 n).length) '0' ++ Nat.toDigits 16 n :=
    String.toList_ofList
  have some : (hex width n).toList ≠ [] := by
    rw [digits]
    exact List.append_ne_nil_of_right_ne_nil _ Nat.toDigits_ne_nil
  have spelled : ("0x" ++ hex width n).toList = '0' :: 'x' :: (hex width n).toList :=
    String.toList_append
  rw [spelled, prefixedNumber?, if_neg some, digits, hexNumberFrom?_append, hexNumberFrom?_zeros,
    Option.bind_some, hexNumberFrom?_toDigits]

end PycListing.Text
