import PycListing.Proofs.Decimal.Scaling
import PycListing.Proofs.Marshal.RoundTrip
import PycListing.Proofs.Text.Numeral
import Mathlib.Algebra.BigOperators.Fin

/-! # Long integers are exact

A long integer is stored as a count, whose sign is that of the number, and as many digits in base
`2 ^ 15`, the least significant first. Any digits may be zero, the last ones too. The reader gives
the number in decimal as it is written canonically, whatever its size, and comes to it by numbers
that fit into machine words (`PycListing.Marshal.read_longInteger`).
-/

namespace PycListing.Marshal

/-- The number that a count and digits denote. -/
def longValue (count : Int) (digits : List Nat) : Int :=
  count.sign * ∑ place : Fin digits.length, (digits.get place : Int) * 2 ^ (15 * (place : Nat))

/-- What follows the first byte of a long integer. -/
def longBytes (count : Int) (digits : List Nat) : List UInt8 :=
  signedBytes 4 count ++ digits.flatMap (littleEndianBytes 2)

variable {count : Int} {digits : List Nat}

theorem sum_digits_eq (digits : List Nat) :
    ∑ place : Fin digits.length, (digits.get place : Int) * 2 ^ (15 * (place : Nat)) =
      (Nat.ofDigits (2 ^ 15) digits : Nat) := by
  induction digits with
  | nil => rfl
  | cons digit digits ih =>
      have shifted (place : Fin digits.length) :
          (digits.get place : Int) * 2 ^ (15 * ((place : Nat) + 1)) =
            2 ^ 15 * ((digits.get place : Int) * 2 ^ (15 * (place : Nat))) := by
        ring
      calc
        _ = (digit : Int) * 2 ^ (15 * 0) +
            ∑ place : Fin digits.length, (digits.get place : Int) * 2 ^ (15 * ((place : Nat) + 1)) :=
          Fin.sum_univ_succ _
        _ = digit + 2 ^ 15 * (Nat.ofDigits (2 ^ 15) digits : Nat) := by
          simp only [shifted, ← Finset.mul_sum, ih, Nat.mul_zero, pow_zero, mul_one]
        _ = _ := by
          rw [Nat.ofDigits_cons]
          push_cast
          ring

/-- The sign of the count is that of the digits. Without a digit both are zero. -/
theorem longValue_eq (size : count.natAbs = digits.length) :
    longValue count digits =
      if count < 0 then -((Nat.ofDigits (2 ^ 15) digits : Nat) : Int)
      else ((Nat.ofDigits (2 ^ 15) digits : Nat) : Int) := by
  rw [longValue, sum_digits_eq]
  rcases lt_trichotomy count 0 with below | rfl | above
  · rw [Int.sign_eq_neg_one_of_neg below, if_pos below, neg_one_mul]
  · obtain rfl : digits = [] := List.eq_nil_of_length_eq_zero size.symm
    rfl
  · rw [Int.sign_eq_one_of_pos above, if_neg (not_lt_of_gt above), one_mul]

/-- The long integer of a count and digits, written in decimal. -/
def longObject (count : Int) (digits : List Nat) : Value :=
  .long (toString (longValue count digits))

namespace Read

theorem Yields.longObject (low : -2 ^ 31 ≤ count) (high : count < 2 ^ 31)
    (size : count.natAbs = digits.length) (small : ∀ digit ∈ digits, digit < 2 ^ 15)
    (tables : Tables) :
    Yields Read.longInteger tables (longBytes count digits) (longObject count digits) tables := by
  rw [Marshal.longObject, longValue_eq size]
  exact .longInteger count low high size small tables

theorem Follows.longObject {layout : CodeLayout} {levels : Nat} (low : -2 ^ 31 ≤ count)
    (high : count < 2 ^ 31) (size : count.natAbs = digits.length)
    (small : ∀ digit ∈ digits, digit < 2 ^ 15) (tables : Tables) :
    Follows layout levels tables (.payload 'l' (longObject count digits)) (longBytes count digits)
      tables :=
  .scalar .long (fun _ => .longObject low high size small tables) (by decide)

theorem yields_read_of_follows {version : Version} {before after : Tables} {value : Value}
    {bytes : List UInt8}
    (follows : Follows (CodeLayout.ofVersion version) depthLimit before (.object value) bytes
      after) : Yields (read version) before bytes value after := by
  rw [read, run_nil_eq]
  exact follows

end Read

/-- **Long integers are exact.** A count in 32 bits and as many digits as it says, zeros anywhere,
are read as the number that they denote, written canonically, by every version, wherever they stand
in a stream and whether or not they are flagged. The loop that makes the limbs of the number has,
after each digit and at the end, those of the digits so far. At every turn of it, each limb is below
`10 ^ 9`, and a limb multiplied by `2 ^ 15` is below `2 ^ 64` with what is carried to it. The top
limb is zero at no turn but those that are about to put more limbs above it. -/
theorem read_longInteger (count : Int) (digits : List Nat) (low : -2 ^ 31 ≤ count)
    (high : count < 2 ^ 31) (size : digits.length = count.natAbs)
    (small : ∀ digit ∈ digits, digit < 2 ^ 15) :
    (∀ tables, Read.Yields Read.longInteger tables (longBytes count digits)
      (longObject count digits) tables) ∧
    (∀ (version : Version) (tables : Tables),
      Read.Yields (read version) tables (firstByte 'l' false :: longBytes count digits)
        (longObject count digits) tables ∧
      Read.Yields (read version) tables (firstByte 'l' true :: longBytes count digits)
        (longObject count digits)
        (tables.reserve.fill tables.slots.size (longObject count digits))) ∧
    Text.IsCanonical (toString (longValue count digits)).toList ∧
    (∀ later done, digits = later ++ done →
      ∃ turns, (Decimal.Scaling.step (2 ^ 15))^[turns] (.start digits) =
        .between (Decimal.limbsOfDigits (2 ^ 15) done) later.reverse) ∧
    ∀ turns state, (Decimal.Scaling.step (2 ^ 15))^[turns] (.start digits) = state →
      (∀ limb ∈ state.limbs, limb < 10 ^ 9) ∧
      (∀ limb ∈ state.unscaled, limb * 2 ^ 15 + state.carry < 2 ^ 64) ∧
      (state.limbs.getLast? = some 0 → state.unscaled = [] ∧ state.carry ≠ 0) := by
  have positive : 0 < 2 ^ 15 := by decide
  refine ⟨.longObject low high size.symm small, fun version tables => ⟨?_, ?_⟩,
    Text.isCanonical_toString _, ?_, ?_⟩
  · exact Read.yields_read_of_follows (.plain (.longObject low high size.symm small tables))
  · exact Read.yields_read_of_follows (.flagged (.longObject low high size.symm small _))
  · rintro later done rfl
    exact Decimal.Scaling.reaches_between _ later done
  · rintro turns state rfl
    have sound := (Decimal.Scaling.sound_start positive small).iterate_step positive turns
    refine ⟨sound.limb, fun limb member => ?_, sound.top⟩
    have fits : limb < Decimal.limbBase := sound.limb limb (List.mem_append_right _ member)
    exact (Decimal.Scaling.sum_lt fits sound.carry).trans (by decide)

/-- The digits above the top one may be zero. -/
theorem read_longInteger_zeros :
    read ⟨2, 7⟩ (Tables.empty.state
        ⟨0, 0x6c :: longBytes (-5) [0, 0, 0, 1, 0] ++ [0x4e]⟩) =
      .ok (.long "-35184372088832") (Tables.empty.state ⟨15, [0x4e]⟩) := by
  have small : ∀ digit ∈ [0, 0, 0, 1, 0], digit < 2 ^ 15 := by decide
  obtain ⟨-, reads, -⟩ := read_longInteger (-5) [0, 0, 0, 1, 0] (by decide) (by decide) rfl small
  exact (reads ⟨2, 7⟩ .empty).1 0 [0x4e]

end PycListing.Marshal
