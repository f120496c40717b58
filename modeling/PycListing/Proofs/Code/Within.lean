import PycListing.Code.Unit
import Mathlib.Data.List.Basic

/-! # What lies within a value

A value lies within another one if it is that value, or lies within one of its parts: the items
of a container, the keys and values of a dict, the constants of a unit
(`PycListing.Value.Within`). Parts are smaller than the whole, so what holds of a value whenever
it holds of the parts holds of every value (`PycListing.Value.parts_induction`).
-/

namespace PycListing.Value

/-- The values that stand directly in a value. -/
def parts : Value → List Value
  | .tuple items => items
  | .list items => items
  | .dict pairs => pairs.flatMap fun (key, value) => [key, value]
  | .set items => items
  | .frozenset items => items
  | .code unit => unit.consts
  | _ => []

inductive Within (inner : Value) : Value → Prop where
  | itself : Within inner inner
  | part {part whole : Value} (member : part ∈ whole.parts) (within : Within inner part) :
      Within inner whole

theorem within_iff {inner whole : Value} :
    Within inner whole ↔ inner = whole ∨ ∃ part ∈ whole.parts, Within inner part := by
  constructor
  · rintro (_ | ⟨member, within⟩)
    · exact .inl rfl
    · exact .inr ⟨_, member, within⟩
  · rintro (rfl | ⟨part, member, within⟩)
    · exact .itself
    · exact .part member within

theorem mem_parts_dict {part : Value} {pairs : List (Value × Value)} :
    part ∈ (Value.dict pairs).parts ↔ ∃ pair ∈ pairs, part = pair.1 ∨ part = pair.2 := by
  simp only [parts, List.mem_flatMap, List.mem_cons, List.not_mem_nil, or_false]

theorem sizeOf_lt_of_mem_parts {part whole : Value} (member : part ∈ whole.parts) :
    sizeOf part < sizeOf whole := by
  cases whole with
  | tuple items =>
      have := List.sizeOf_lt_of_mem (show part ∈ items from member)
      simp only [tuple.sizeOf_spec]
      omega
  | list items =>
      have := List.sizeOf_lt_of_mem (show part ∈ items from member)
      simp only [list.sizeOf_spec]
      omega
  | dict pairs =>
      obtain ⟨⟨key, value⟩, present, same⟩ := mem_parts_dict.mp member
      have := List.sizeOf_lt_of_mem present
      simp only [dict.sizeOf_spec, Prod.mk.sizeOf_spec] at this ⊢
      rcases same with rfl | rfl <;> omega
  | set items =>
      have := List.sizeOf_lt_of_mem (show part ∈ items from member)
      simp only [set.sizeOf_spec]
      omega
  | frozenset items =>
      have := List.sizeOf_lt_of_mem (show part ∈ items from member)
      simp only [frozenset.sizeOf_spec]
      omega
  | code unit =>
      have := List.sizeOf_lt_of_mem (show part ∈ unit.consts from member)
      have := CodeUnit.sizeOf_consts_lt unit
      simp only [code.sizeOf_spec]
      omega
  | _ => cases member

theorem parts_induction {motive : Value → Prop}
    (step : ∀ value, (∀ part ∈ value.parts, motive part) → motive value) (value : Value) :
    motive value := by
  induction size : sizeOf value using Nat.strongRecOn generalizing value with
  | _ size ih =>
  apply step
  intro part member
  exact ih _ (size ▸ sizeOf_lt_of_mem_parts member) part rfl

end PycListing.Value
