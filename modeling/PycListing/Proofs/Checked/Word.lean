import PycListing.Proofs.Fallible
import Mathlib.Algebra.Group.Nat.Defs
import Mathlib.Algebra.Ring.Int.Defs

/-! # Steps that a machine could take

A machine keeps a number in a word and its entries in a list of a length. Here such a step stops
with a fault where a number leaves its word, or where an index or a slice leaves its list. A step
that stays within them comes to what the same step without limits comes to.
-/

namespace PycListing

/-- Why a step stops. -/
inductive Fault where
  /-- An index or a slice leaves its list. -/
  | outOfRange
  /-- A number leaves its word. -/
  | overflow
  deriving DecidableEq, Repr

namespace Checked

variable {α β ε : Type}

/-! ## Numbers in words -/

/-- A number in a word of some bits. -/
def word (bits number : Nat) : Except Fault Nat :=
  if number < 2 ^ bits then .ok number else .error .overflow

/-- A sum in a word of an address, of 64 bits. -/
def add (first second : Nat) : Except Fault Nat :=
  word 64 (first + second)

/-- A difference in a word without a sign. -/
def sub (first second : Nat) : Except Fault Nat :=
  if second ≤ first then .ok (first - second) else .error .overflow

/-- A sum in a word of 64 bits with a sign. -/
def addSigned (first second : Int) : Except Fault Int :=
  if -2 ^ 63 ≤ first + second ∧ first + second < 2 ^ 63 then .ok (first + second)
  else .error .overflow

theorem word_eq {bits number : Nat} (fits : number < 2 ^ bits) : word bits number = .ok number :=
  if_pos fits

theorem add_eq {first second : Nat} (fits : first + second < 2 ^ 64) :
    add first second = .ok (first + second) :=
  word_eq fits

theorem eq_add {first second sum : Nat} (summed : add first second = .ok sum) :
    sum = first + second := by
  rw [add, word] at summed
  split at summed
  · exact (Except.ok.inj summed).symm
  · cases summed

theorem sub_eq {first second : Nat} (fits : second ≤ first) :
    sub first second = .ok (first - second) :=
  if_pos fits

theorem addSigned_eq {first second : Int} (above : -2 ^ 63 ≤ first + second)
    (below : first + second < 2 ^ 63) : addSigned first second = .ok (first + second) :=
  if_pos ⟨above, below⟩

/-! ## Entries of lists -/

/-- The entry at an index. -/
def item (entries : List α) (index : Nat) : Except Fault α :=
  match entries[index]? with
  | some entry => .ok entry
  | none => .error .outOfRange

/-- The entries from a place up to another one. -/
def slice (entries : List α) (first stop : Nat) : Except Fault (List α) :=
  if first ≤ stop ∧ stop ≤ entries.length then .ok ((entries.take stop).drop first)
  else .error .outOfRange

theorem item_eq {entries : List α} {index : Nat} {entry : α}
    (found : entries[index]? = some entry) : item entries index = .ok entry := by
  rw [item, found]

theorem slice_eq {entries : List α} {first stop : Nat} (ordered : first ≤ stop)
    (within : stop ≤ entries.length) :
    slice entries first stop = .ok ((entries.take stop).drop first) :=
  if_pos ⟨ordered, within⟩

theorem eq_slice {entries part : List α} {first stop : Nat}
    (cut : slice entries first stop = .ok part) : part = (entries.take stop).drop first := by
  rw [slice] at cut
  split at cut
  · exact (Except.ok.inj cut).symm
  · cases cut

theorem slice_from {entries : List α} {first : Nat} (within : first ≤ entries.length) :
    slice entries first entries.length = .ok (entries.drop first) := by
  rw [slice_eq within (Nat.le_refl _), List.take_length]

theorem slice_to {entries : List α} {stop : Nat} (within : stop ≤ entries.length) :
    slice entries 0 stop = .ok (entries.take stop) := by
  rw [slice_eq (Nat.zero_le _) within, List.drop_zero]

/-! ## Sequences of steps -/

@[simp] theorem bind_ok (found : α) (next : α → Except Fault β) :
    (Except.ok found >>= next) = next found :=
  rfl

@[simp] theorem pure_eq (found : α) : (pure found : Except Fault α) = .ok found :=
  rfl

/-- A step for each item in order, up to the first one that comes to an error. -/
def each (step : α → Except Fault (Except ε β)) :
    List α → Except Fault (Except ε (List β))
  | [] => pure (.ok [])
  | item :: items => do
    match ← step item with
    | .error error => pure (.error error)
    | .ok result => return (← each step items).map (result :: ·)

/-- Steps without a fault come to what the same steps without limits come to. -/
theorem each_eq {step : α → Except Fault (Except ε β)} {unlimited : α → Except ε β}
    {items : List α}
    (same : ∀ item ∈ items, step item = .ok (unlimited item)) :
    each step items = .ok (items.mapM unlimited) := by
  induction items with
  | nil => rfl
  | cons item items ih =>
      obtain ⟨first, others⟩ := List.forall_mem_cons.mp same
      rw [each, first, bind_ok]
      cases found : unlimited item with
      | error error => rw [mapM_cons_of_error found]; rfl
      | ok result => rw [mapM_cons_of_ok found, ih others]; rfl

end Checked

end PycListing
