import Mathlib.Data.List.Basic

/-! # Reading numbers

A number in decimal ends where the first character stands that is neither a digit nor a sign, so it
is read back from a text that goes on with anything else
(`PycListing.Text.toString_append_inj`). It has no zeros before it and no sign that it does not need
(`PycListing.Text.isCanonical_toString`).
-/

namespace PycListing.Text

/-- Two texts of a class of characters, which what follows them does not start with. -/
theorem eq_of_append_eq {inside : Char → Bool} {first second rest other : List Char}
    (firstIn : ∀ c ∈ first, inside c = true) (secondIn : ∀ c ∈ second, inside c = true)
    (restOut : ∀ c ∈ rest.head?, inside c = false) (otherOut : ∀ c ∈ other.head?, inside c = false)
    (same : first ++ rest = second ++ other) : first = second ∧ rest = other := by
  have none {rest : List Char} (out : ∀ c ∈ rest.head?, inside c = false) :
      rest.takeWhile inside = [] := by
    cases rest with
    | nil => rfl
    | cons c rest =>
        have outside : ¬inside c = true := by
          rw [out c rfl]
          exact Bool.false_ne_true
        exact List.takeWhile_cons_of_neg outside
  have taken := congrArg (List.takeWhile inside) same
  rw [List.takeWhile_append_of_pos firstIn, List.takeWhile_append_of_pos secondIn, none restOut,
    none otherOut, List.append_nil, List.append_nil] at taken
  subst taken
  exact ⟨rfl, List.append_cancel_left same⟩

/-- The characters of a number in decimal. -/
def isNumeral (c : Char) : Bool :=
  c.isDigit || c == '-'

theorem toList_toString_nat (n : Nat) : (toString n).toList = Nat.toDigits 10 n :=
  String.toList_ofList

theorem toList_toString_ofNat (n : Nat) : (toString (Int.ofNat n)).toList = Nat.toDigits 10 n :=
  String.toList_ofList

theorem toList_toString_negSucc (n : Nat) :
    (toString (Int.negSucc n)).toList = '-' :: Nat.toDigits 10 (n + 1) := by
  change ("-" ++ String.ofList (Nat.toDigits 10 (n + 1))).toList = _
  rw [String.toList_append]
  exact congrArg (['-'] ++ ·) String.toList_ofList

theorem isNumeral_of_mem {n : Int} {c : Char} (member : c ∈ (toString n).toList) :
    isNumeral c = true := by
  have digit {n : Nat} (member : c ∈ Nat.toDigits 10 n) : isNumeral c = true := by
    rw [isNumeral, Nat.isDigit_of_mem_toDigits (by decide) (by decide) member, Bool.true_or]
  cases n with
  | ofNat n =>
      rw [toList_toString_ofNat] at member
      exact digit member
  | negSucc n =>
      rw [toList_toString_negSucc] at member
      rcases List.mem_cons.mp member with rfl | inDigits
      · rfl
      · exact digit inDigits

theorem toString_int_ne_nil (n : Int) : (toString n).toList ≠ [] := by
  cases n with
  | ofNat n =>
      rw [toList_toString_ofNat]
      exact Nat.toDigits_ne_nil
  | negSucc n =>
      rw [toList_toString_negSucc]
      exact List.cons_ne_nil _ _

theorem toDigits_injective {n m : Nat} (same : Nat.toDigits 10 n = Nat.toDigits 10 m) : n = m := by
  have read := congrArg (Nat.ofDigitChars 10 · 0) same
  rwa [Nat.ofDigitChars_ten_toDigits, Nat.ofDigitChars_ten_toDigits] at read

theorem toDigits_ne_negative {n : Nat} {digits : List Char} :
    Nat.toDigits 10 n ≠ '-' :: digits := by
  intro same
  have digit : '-'.isDigit = true :=
    Nat.isDigit_of_mem_toDigits (by decide) (by decide) (same ▸ List.mem_cons_self)
  cases digit

theorem toString_int_injective {n m : Int} (same : (toString n).toList = (toString m).toList) :
    n = m := by
  cases n with
  | ofNat n =>
      cases m with
      | ofNat m =>
          rw [toList_toString_ofNat, toList_toString_ofNat] at same
          rw [toDigits_injective same]
      | negSucc m =>
          rw [toList_toString_ofNat, toList_toString_negSucc] at same
          exact absurd same toDigits_ne_negative
  | negSucc n =>
      cases m with
      | ofNat m =>
          rw [toList_toString_negSucc, toList_toString_ofNat] at same
          exact absurd same.symm toDigits_ne_negative
      | negSucc m =>
          rw [toList_toString_negSucc, toList_toString_negSucc] at same
          rw [Nat.succ_inj.mp (toDigits_injective (List.cons.inj same).2)]

theorem toString_append_inj {n m : Int} {rest more : List Char}
    (restOut : ∀ c ∈ rest.head?, isNumeral c = false) (moreOut : ∀ c ∈ more.head?, isNumeral c = false)
    (same : (toString n).toList ++ rest = (toString m).toList ++ more) : n = m ∧ rest = more := by
  obtain ⟨texts, rests⟩ := eq_of_append_eq (fun _ => isNumeral_of_mem) (fun _ => isNumeral_of_mem)
    restOut moreOut same
  exact ⟨toString_int_injective texts, rests⟩

/-- Digits in decimal of which none could be left out, with a sign only before what is not zero. -/
def IsCanonical (text : List Char) : Prop :=
  ∃ digits, (text = digits ∨ text = '-' :: digits ∧ digits ≠ ['0']) ∧ digits ≠ [] ∧
    (∀ c ∈ digits, c.isDigit = true) ∧ (digits.head? = some '0' → digits = ['0'])

/-- No zero leads a number that is not zero. -/
theorem head?_toDigits_ne {n : Nat} (positive : 0 < n) :
    (Nat.toDigits 10 n).head? ≠ some '0' := by
  induction n using Nat.strongRecOn with
  | _ n ih =>
  by_cases small : n < 10
  · have single : ∀ n < 10, 0 < n → [Nat.digitChar n].head? ≠ some '0' := by decide
    rw [Nat.toDigits_of_lt_base small]
    exact single n small positive
  · have shorter : n / 10 < n := Nat.div_lt_self positive (by decide)
    have above : 0 < n / 10 := Nat.div_pos (Nat.le_of_not_lt small) (by decide)
    rw [Nat.toDigits_of_base_le (by decide) (Nat.le_of_not_lt small),
      List.head?_append_of_ne_nil _ Nat.toDigits_ne_nil]
    exact ih _ shorter above

theorem isCanonical_toString (n : Int) : IsCanonical (toString n).toList := by
  have isDigit {n : Nat} : ∀ c ∈ Nat.toDigits 10 n, c.isDigit = true := fun _ member =>
    Nat.isDigit_of_mem_toDigits (by decide) (by decide) member
  cases n with
  | ofNat n =>
      rw [toList_toString_ofNat]
      refine ⟨_, .inl rfl, Nat.toDigits_ne_nil, isDigit, fun zero => ?_⟩
      rcases Nat.eq_zero_or_pos n with rfl | positive
      · rfl
      · exact absurd zero (head?_toDigits_ne positive)
  | negSucc n =>
      rw [toList_toString_negSucc]
      have leads := head?_toDigits_ne (Nat.succ_pos n)
      refine ⟨_, .inr ⟨rfl, fun zero => ?_⟩, Nat.toDigits_ne_nil, isDigit, fun zero => ?_⟩
      · rw [zero] at leads
        exact leads rfl
      · exact absurd zero leads

end PycListing.Text
