import PycListing.Decimal.Limbs
import Mathlib.Data.Nat.Digits.Defs

/-! # Large integers in decimal are exact

The limbs of a number are its digits in base `10 ^ 9`, so that no limb is too large and the last
one is never zero (`PycListing.Decimal.limbsOfDigits_eq`). Their text is the decimal text of the
number (`PycListing.Decimal.signedText_eq`).
-/

namespace PycListing.Decimal

theorem one_lt_limbBase : 1 < limbBase := by
  decide

theorem limbBase_pos : 0 < limbBase :=
  Nat.zero_lt_of_lt one_lt_limbBase

theorem carryLimbs_eq (carry : Nat) : carryLimbs carry = Nat.digits limbBase carry := by
  induction carry using Nat.strongRecOn with
  | _ carry ih =>
  rw [carryLimbs]
  by_cases zero : carry = 0
  · rw [if_pos zero, zero, Nat.digits_zero]
  · have positive : 0 < carry := Nat.pos_of_ne_zero zero
    rw [if_neg zero, ih _ (Nat.div_lt_self positive one_lt_limbBase),
      Nat.digits_def' one_lt_limbBase positive]

/-- Limbs multiplied by a base with a carry added are the limbs of the sum. -/
theorem scaleAdd_digits {base : Nat} (positive : 0 < base) (n carry : Nat) :
    scaleAdd base (Nat.digits limbBase n) carry = Nat.digits limbBase (n * base + carry) := by
  induction n using Nat.strongRecOn generalizing carry with
  | _ n ih =>
  by_cases zero : n = 0
  · rw [zero, Nat.digits_zero, scaleAdd, carryLimbs_eq, Nat.zero_mul, Nat.zero_add]
  · have split : n * base + carry =
        limbBase * (n / limbBase * base) + (n % limbBase * base + carry) := by
      conv_lhs => rw [← Nat.div_add_mod n limbBase]
      ring
    have quotient : (n * base + carry) / limbBase =
        n / limbBase * base + (n % limbBase * base + carry) / limbBase := by
      rw [split, Nat.mul_add_div limbBase_pos]
    have remainder : (n * base + carry) % limbBase = (n % limbBase * base + carry) % limbBase := by
      rw [split, Nat.mul_add_mod]
    have grown : 0 < n * base + carry :=
      Nat.add_pos_left (Nat.mul_pos (Nat.pos_of_ne_zero zero) positive) carry
    rw [Nat.digits_def' one_lt_limbBase (Nat.pos_of_ne_zero zero), scaleAdd,
      ih _ (Nat.div_lt_self (Nat.pos_of_ne_zero zero) one_lt_limbBase),
      Nat.digits_def' one_lt_limbBase grown, quotient, remainder]

/-- **Limbs are exact.** The limbs of a number given by its digits are its digits in the base of
limbs. -/
theorem limbsOfDigits_eq {base : Nat} (positive : 0 < base) (digits : List Nat) :
    limbsOfDigits base digits = Nat.digits limbBase (Nat.ofDigits base digits) := by
  induction digits with
  | nil => rw [Nat.ofDigits_nil, Nat.digits_zero]; rfl
  | cons digit digits ih =>
      change scaleAdd base (limbsOfDigits base digits) digit = _
      rw [ih, scaleAdd_digits positive, Nat.ofDigits_cons]
      congr 1
      rw [Nat.mul_comm, Nat.add_comm]

/-! ## The text of limbs -/

/-- The digits of a number below a power of ten, with zeros before them. -/
private def paddedDigits (width n : Nat) : List Char :=
  List.replicate (width - (Nat.toDigits 10 n).length) '0' ++ Nat.toDigits 10 n

private theorem paddedDigits_succ {width n : Nat} (positive : 0 < width) :
    paddedDigits (width + 1) n = paddedDigits width (n / 10) ++ [Nat.digitChar (n % 10)] := by
  by_cases small : n < 10
  · obtain ⟨less, rfl⟩ : ∃ less, width = less + 1 := ⟨width - 1, by omega⟩
    have noTens : n / 10 = 0 := Nat.div_eq_of_lt small
    simp only [paddedDigits, Nat.toDigits_of_lt_base small, noTens, Nat.toDigits_zero,
      Nat.mod_eq_of_lt small, List.length_singleton, Nat.add_sub_cancel]
    rw [← List.replicate_succ']
  · rw [paddedDigits, paddedDigits, Nat.toDigits_of_base_le Nat.one_lt_ofNat (Nat.le_of_not_lt small),
      List.length_append, List.length_singleton, Nat.add_sub_add_right, List.append_assoc]

/-- A number is written as its part above a power of ten, then the rest at full width. -/
private theorem toDigits_mul_pow_add {width high low : Nat} (positive : 0 < width)
    (above : 0 < high) (fits : low < 10 ^ width) :
    Nat.toDigits 10 (high * 10 ^ width + low) = Nat.toDigits 10 high ++ paddedDigits width low := by
  induction width, positive using Nat.le_induction generalizing low with
  | base =>
      have single : low < 10 := by simpa using fits
      have digit : Nat.toDigits 10 low = [Nat.digitChar low] := Nat.toDigits_of_lt_base single
      rw [paddedDigits, digit, List.length_singleton, Nat.sub_self, List.replicate_zero,
        List.nil_append, ← digit, Nat.toDigits_append_toDigits Nat.one_lt_ofNat above single,
        Nat.pow_one, Nat.mul_comm]
  | succ width positive ih =>
      have less : low / 10 < 10 ^ width := by
        rw [Nat.pow_succ] at fits
        omega
      have regrouped : high * 10 ^ (width + 1) + low =
          10 * (high * 10 ^ width + low / 10) + low % 10 := by
        rw [Nat.pow_succ]
        have := Nat.div_add_mod low 10
        rw [Nat.mul_add, ← Nat.mul_assoc high, Nat.mul_comm _ 10]
        omega
      have more : 0 < high * 10 ^ width + low / 10 :=
        Nat.add_pos_left (Nat.mul_pos above (Nat.pow_pos (Nat.succ_pos 9))) _
      have digit : low % 10 < 10 := Nat.mod_lt _ (Nat.succ_pos 9)
      rw [regrouped, ← Nat.toDigits_append_toDigits Nat.one_lt_ofNat more digit, ih less,
        Nat.toDigits_of_lt_base digit, paddedDigits_succ positive, List.append_assoc]

/-- The text of the limbs of a number is its decimal text. -/
theorem limbsText_digits (n : Nat) : limbsText (Nat.digits limbBase n) = toString n := by
  induction n using Nat.strongRecOn with
  | _ n ih =>
  by_cases zero : n = 0
  · rw [zero, Nat.digits_zero]
    rfl
  have positive : 0 < n := Nat.pos_of_ne_zero zero
  rw [Nat.digits_def' one_lt_limbBase positive]
  by_cases small : n < limbBase
  · rw [Nat.div_eq_of_lt small, Nat.digits_zero, Nat.mod_eq_of_lt small]
    simp only [limbsText, List.reverse_singleton, List.map_nil, String.join_nil,
      String.append_empty]
  · have above : 0 < n / limbBase := Nat.div_pos (Nat.le_of_not_lt small) limbBase_pos
    have shorter := ih (n / limbBase) (Nat.div_lt_self positive one_lt_limbBase)
    have nonempty : Nat.digits limbBase (n / limbBase) ≠ [] :=
      Nat.digits_ne_nil_iff_ne_zero.mpr (Nat.pos_iff_ne_zero.mp above)
    obtain ⟨top, rest, reversed⟩ :=
      List.exists_cons_of_ne_nil (List.reverse_ne_nil_iff.mpr nonempty)
    simp only [limbsText, reversed] at shorter
    simp only [limbsText, List.reverse_cons, reversed, List.cons_append, List.map_append,
      List.map_cons, List.map_nil, String.join_append, ← String.append_assoc, shorter,
      String.join_cons, String.join_nil, String.append_empty]
    conv_rhs => rw [← Nat.div_add_mod n limbBase, Nat.mul_comm]
    have fits : n % limbBase < 10 ^ 9 := Nat.mod_lt n limbBase_pos
    have joined := toDigits_mul_pow_add (Nat.succ_pos 8) above fits
    rw [Nat.toString_eq_ofList_toDigits, Nat.toString_eq_ofList_toDigits]
    change _ = String.ofList (Nat.toDigits 10 (n / limbBase * 10 ^ 9 + n % limbBase))
    rw [joined, String.ofList_append]
    rfl

private theorem repr_ne_zero {n : Nat} (nonzero : n ≠ 0) : n.repr ≠ "0" := by
  intro same
  have digits : Nat.toDigits 10 n = Nat.toDigits 10 0 := by
    rw [← Nat.toList_repr, same]
    rfl
  have value := congrArg (Nat.ofDigitChars 10 · 0) digits
  simp only [Nat.ofDigitChars_ten_toDigits] at value
  exact nonzero value

/-- **Large integers are exact.** The text of a sign and digits is the canonical decimal text of
the number. -/
theorem signedText_eq {base : Nat} (positive : 0 < base) (negative : Bool) (digits : List Nat) :
    signedText negative base digits =
      toString (if negative then -((Nat.ofDigits base digits : Nat) : Int)
        else ((Nat.ofDigits base digits : Nat) : Int)) := by
  have text : limbsText (limbsOfDigits base digits) = (Nat.ofDigits base digits).repr := by
    rw [limbsOfDigits_eq positive, limbsText_digits, Nat.toString_eq_repr]
  simp only [signedText, text, Int.toString_eq_repr, Int.repr_eq_if]
  generalize Nat.ofDigits base digits = n
  cases negative with
  | false =>
      simp only [Bool.false_and, Bool.false_eq_true, if_false, Int.natCast_nonneg, if_true,
        Int.toNat_natCast]
  | true =>
      by_cases zero : n = 0
      · subst zero
        rfl
      · have shown : (n.repr != "0") = true := bne_iff_ne.mpr (repr_ne_zero zero)
        have below : ¬0 ≤ -(n : Int) := by omega
        simp only [shown, Bool.and_true, if_true, below, if_false, Int.neg_neg, Int.toNat_natCast]

end PycListing.Decimal
