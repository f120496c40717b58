import PycListing.Proofs.Decimal.Limbs
import Mathlib.Data.List.Basic
import Mathlib.Logic.Function.Iterate

/-! # Scaling limbs in place

The limbs of a number stand in one list. Each further digit goes through this list from the least
significant limb on: a limb is multiplied by the base of the digits, what was carried to it is
added, and what exceeds a limb is carried on; at the end the list grows by what is left of the
carry. One turn of the loop rewrites one limb, adds one, or turns to the next digit. Every turn
keeps the limbs and the carry small, so that no turn comes to a large number, and the top limb is
not zero unless a carry is about to be put above it (`PycListing.Decimal.Scaling.Sound.step`). After
every digit, and so at the end, the limbs are those of the number that the digits so far denote
(`PycListing.Decimal.Scaling.reaches_between`).
-/

namespace PycListing.Decimal

/-- The state of the loop: the limbs that the digit at hand has gone through, those it has not,
least significant first, what it carries to them, and the digits to come, the next one first. -/
structure Scaling where
  scaled : List Nat
  unscaled : List Nat
  carry : Nat
  coming : List Nat

namespace Scaling

variable {base carry digit limb : Nat} {scaled unscaled coming : List Nat}

/-- A digit has gone through all limbs, and the next one has not started. -/
def between (limbs coming : List Nat) : Scaling :=
  ⟨limbs, [], 0, coming⟩

/-- Before any digit there is no limb. The most significant digit is the first one to come. -/
def start (digits : List Nat) : Scaling :=
  between [] digits.reverse

def limbs (state : Scaling) : List Nat :=
  state.scaled ++ state.unscaled

/-- One turn of the loop. A digit is taken up once nothing is carried any more. -/
def step (base : Nat) : Scaling → Scaling
  | ⟨scaled, limb :: unscaled, carry, coming⟩ =>
    ⟨scaled ++ [(limb * base + carry) % limbBase], unscaled, (limb * base + carry) / limbBase,
      coming⟩
  | ⟨scaled, [], 0, []⟩ => ⟨scaled, [], 0, []⟩
  | ⟨scaled, [], 0, digit :: coming⟩ => ⟨[], scaled, digit, coming⟩
  | ⟨scaled, [], carry, coming⟩ =>
    ⟨scaled ++ [carry % limbBase], [], carry / limbBase, coming⟩

theorem step_limb :
    step base ⟨scaled, limb :: unscaled, carry, coming⟩ =
      ⟨scaled ++ [(limb * base + carry) % limbBase], unscaled, (limb * base + carry) / limbBase,
        coming⟩ :=
  rfl

theorem step_carry (left : carry ≠ 0) :
    step base ⟨scaled, [], carry, coming⟩ =
      ⟨scaled ++ [carry % limbBase], [], carry / limbBase, coming⟩ := by
  obtain ⟨less, rfl⟩ := Nat.exists_eq_succ_of_ne_zero left
  cases coming with
  | nil => rfl
  | cons digit coming => rfl

theorem step_digit :
    step base ⟨scaled, [], 0, digit :: coming⟩ = ⟨[], scaled, digit, coming⟩ :=
  rfl

/-! ## What every turn keeps -/

/-- Limbs, carry and digits are small, and a top limb of zero has a carry that is about to be put
above it. -/
structure Sound (base : Nat) (state : Scaling) : Prop where
  limb : ∀ limb ∈ state.limbs, limb < limbBase
  carry : state.carry < base
  digit : ∀ digit ∈ state.coming, digit < base
  top : state.limbs.getLast? = some 0 → state.unscaled = [] ∧ state.carry ≠ 0

theorem sound_start (positive : 0 < base) {digits : List Nat}
    (small : ∀ digit ∈ digits, digit < base) : (start digits).Sound base where
  limb := List.forall_mem_nil _
  carry := positive
  digit := fun digit member => small digit (List.mem_reverse.mp member)
  top := nofun

/-- A limb multiplied by the base, with the carry, is below the product of the bases. -/
theorem sum_lt (small : limb < limbBase) (low : carry < base) :
    limb * base + carry < limbBase * base :=
  calc
    limb * base + carry < limb * base + base := Nat.add_lt_add_left low _
    _ = (limb + 1) * base := (Nat.succ_mul limb base).symm
    _ ≤ limbBase * base := Nat.mul_le_mul_right base small

/-- What is divided by the base of limbs leaves a remainder or a quotient. -/
theorem div_ne_zero_of_mod_eq_zero {n : Nat} (nonzero : n ≠ 0) (none : n % limbBase = 0) :
    n / limbBase ≠ 0 := by
  intro less
  have split := Nat.div_add_mod n limbBase
  rw [less, none] at split
  exact nonzero split.symm

theorem forall_mem_limbs {fits : Nat → Prop} :
    (∀ limb ∈ limbs ⟨scaled, unscaled, carry, coming⟩, fits limb) ↔
      (∀ limb ∈ scaled, fits limb) ∧ ∀ limb ∈ unscaled, fits limb :=
  List.forall_mem_append

/-- A limb that is rewritten is top only if it is the last one, and a product that leaves no
remainder there leaves a carry. -/
theorem Sound.step_limb (positive : 0 < base)
    (sound : Sound base ⟨scaled, limb :: unscaled, carry, coming⟩) :
    (step base ⟨scaled, limb :: unscaled, carry, coming⟩).Sound base := by
  obtain ⟨inScaled, inUnscaled⟩ := forall_mem_limbs.mp sound.limb
  obtain ⟨small, others⟩ := List.forall_mem_cons.mp inUnscaled
  have product : limb * base + carry < limbBase * base := sum_lt small sound.carry
  refine ⟨forall_mem_limbs.mpr ⟨?_, others⟩, Nat.div_lt_of_lt_mul product, sound.digit, ?_⟩
  · exact List.forall_mem_append.mpr
      ⟨inScaled, List.forall_mem_singleton.mpr (Nat.mod_lt _ limbBase_pos)⟩
  · intro zero
    cases unscaled with
    | cons next unscaled =>
        -- The top limb is another one, which the turn leaves as it is.
        have last : (next :: unscaled).getLast? = some 0 :=
          (List.getLast?_append_cons _ next unscaled).symm.trans zero
        have top : (scaled ++ limb :: next :: unscaled).getLast? = some 0 := by
          rw [List.append_cons, List.getLast?_append_cons, last]
        cases (sound.top top).1
    | nil =>
        -- A zero is left of the top limb only by a product that is not zero.
        rw [Scaling.step_limb, limbs, List.append_nil, List.getLast?_concat,
          Option.some.injEq] at zero
        refine ⟨rfl, div_ne_zero_of_mod_eq_zero (fun nothing => ?_) zero⟩
        have scaledLimb : limb * base = 0 := (Nat.add_eq_zero_iff.mp nothing).1
        have none : limb = 0 :=
          (Nat.mul_eq_zero.mp scaledLimb).resolve_right (Nat.pos_iff_ne_zero.mp positive)
        subst none
        cases (sound.top List.getLast?_concat).1

/-- What is left of the carry is put above the limbs. -/
theorem Sound.step_carry (left : carry ≠ 0) (sound : Sound base ⟨scaled, [], carry, coming⟩) :
    (step base ⟨scaled, [], carry, coming⟩).Sound base := by
  obtain ⟨inScaled, -⟩ := forall_mem_limbs.mp sound.limb
  rw [Scaling.step_carry left]
  refine ⟨forall_mem_limbs.mpr ⟨?_, List.forall_mem_nil _⟩, ?_, sound.digit, ?_⟩
  · exact List.forall_mem_append.mpr
      ⟨inScaled, List.forall_mem_singleton.mpr (Nat.mod_lt _ limbBase_pos)⟩
  · exact Nat.lt_of_le_of_lt (Nat.div_le_self carry limbBase) sound.carry
  · intro zero
    rw [limbs, List.append_nil, List.getLast?_concat, Option.some.injEq] at zero
    exact ⟨rfl, div_ne_zero_of_mod_eq_zero left zero⟩

/-- The next digit starts from the least significant limb again. -/
theorem Sound.step_digit (sound : Sound base ⟨scaled, [], 0, digit :: coming⟩) :
    (step base ⟨scaled, [], 0, digit :: coming⟩).Sound base := by
  obtain ⟨own, others⟩ := List.forall_mem_cons.mp sound.digit
  have same : limbs ⟨[], scaled, digit, coming⟩ = limbs ⟨scaled, [], 0, digit :: coming⟩ :=
    (List.append_nil scaled).symm
  rw [Scaling.step_digit]
  refine ⟨same ▸ sound.limb, own, others, fun zero => ?_⟩
  rw [same] at zero
  exact absurd rfl (sound.top zero).2

theorem Sound.step (positive : 0 < base) {state : Scaling} (sound : state.Sound base) :
    (state.step base).Sound base := by
  obtain ⟨scaled, unscaled, carry, coming⟩ := state
  cases unscaled with
  | cons limb unscaled => exact sound.step_limb positive
  | nil =>
      by_cases left : carry = 0
      · subst left
        cases coming with
        | nil => exact sound
        | cons digit coming => exact sound.step_digit
      · exact sound.step_carry left

theorem Sound.iterate_step (positive : 0 < base) {state : Scaling} (sound : state.Sound base)
    (turns : Nat) : ((Scaling.step base)^[turns] state).Sound base := by
  induction turns with
  | zero => exact sound
  | succ turns ih =>
      rw [Function.iterate_succ_apply']
      exact ih.step positive

/-! ## What the loop comes to -/

/-- Some turns lead from one state to another. -/
def Reaches (base : Nat) (state final : Scaling) : Prop :=
  ∃ turns, (Scaling.step base)^[turns] state = final

theorem Reaches.refl (state : Scaling) : Reaches base state state :=
  ⟨0, rfl⟩

theorem Reaches.next {state final : Scaling} (reaches : Reaches base (state.step base) final) :
    Reaches base state final := by
  obtain ⟨turns, same⟩ := reaches
  exact ⟨turns + 1, same⟩

theorem Reaches.trans {state middle final : Scaling} (first : Reaches base state middle)
    (second : Reaches base middle final) : Reaches base state final := by
  obtain ⟨before, rfl⟩ := first
  obtain ⟨after, rfl⟩ := second
  exact ⟨after + before, Function.iterate_add_apply _ _ _ _⟩

theorem reaches_carryLimbs (base : Nat) (scaled : List Nat) (carry : Nat) (coming : List Nat) :
    Reaches base ⟨scaled, [], carry, coming⟩ ⟨scaled ++ carryLimbs carry, [], 0, coming⟩ := by
  induction carry using Nat.strongRecOn generalizing scaled with
  | _ carry ih =>
  rw [carryLimbs]
  by_cases none : carry = 0
  · rw [if_pos none, none, List.append_nil]
    exact .refl _
  · have less : carry / limbBase < carry :=
      Nat.div_lt_self (Nat.pos_of_ne_zero none) one_lt_limbBase
    rw [if_neg none, List.append_cons]
    refine .next ?_
    rw [Scaling.step_carry none]
    exact ih _ less (scaled ++ [carry % limbBase])

/-- A digit that goes through all limbs scales the number and adds itself. -/
theorem reaches_scaleAdd (base : Nat) (scaled unscaled : List Nat) (carry : Nat)
    (coming : List Nat) :
    Reaches base ⟨scaled, unscaled, carry, coming⟩
      ⟨scaled ++ scaleAdd base unscaled carry, [], 0, coming⟩ := by
  induction unscaled generalizing scaled carry with
  | nil => exact reaches_carryLimbs base scaled carry coming
  | cons limb unscaled ih =>
      rw [scaleAdd, List.append_cons]
      exact .next (ih _ _)

theorem reaches_limbsOfDigits (base : Nat) (done next later : List Nat) :
    Reaches base (between (limbsOfDigits base done) (next ++ later))
      (between (limbsOfDigits base (next.reverse ++ done)) later) := by
  induction next generalizing done with
  | nil => exact .refl _
  | cons digit next ih =>
      rw [List.reverse_cons, List.append_assoc, List.singleton_append]
      refine .next (.trans ?_ (ih (digit :: done)))
      exact reaches_scaleAdd base [] (limbsOfDigits base done) digit (next ++ later)

/-- After the most significant digits the limbs are those of the number that they denote. -/
theorem reaches_between (base : Nat) (later done : List Nat) :
    Reaches base (start (later ++ done)) (between (limbsOfDigits base done) later.reverse) := by
  have reaches := reaches_limbsOfDigits base [] done.reverse later.reverse
  rwa [List.reverse_reverse, List.append_nil, ← List.reverse_append] at reaches

end Scaling

end PycListing.Decimal
