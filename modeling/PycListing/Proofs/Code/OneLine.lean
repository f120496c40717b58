import PycListing.Proofs.Code.Literal
import PycListing.Proofs.Text.Lines

/-! # Literals stand on one line

A literal quotes the newlines of texts and byte strings, but not those of the names and file names
of units, and a long integer is written as the text that it holds. A literal holds a newline if and
only if one of these texts does (`PycListing.Value.oneLine_literal_iff`).
-/

namespace PycListing

open Text (OneLine)

/-! ## Floats -/

namespace Decimal

variable {digits : List Char}

theorem oneLine_positional (each : OneLine digits) (point : Int) :
    OneLine (positional digits point) := by
  have zeros (count : Nat) : OneLine (List.replicate count '0') := .replicate (by decide) count
  unfold positional
  split
  · exact .cons (by decide) (.cons (by decide) ((zeros _).append each))
  · split
    · exact (each.append (zeros _)).append (.cons (by decide) (.cons (by decide) .nil))
    · refine .append (each.of_subset (List.take_subset _ _)) (.cons (by decide) ?_)
      exact each.of_subset (List.drop_subset _ _)

theorem oneLine_scientific (style : Style) (each : OneLine digits) (exponent : Int) :
    OneLine (style.scientific digits exponent) := by
  have sign : (if exponent < 0 then '-' else '+') ≠ '\n' := by split <;> decide
  have number : OneLine (Text.zeroPadded style.exponentWidth exponent.natAbs).toList := by
    rw [Text.zeroPadded, String.toList_ofList]
    exact .append (.replicate (by decide) _) (.toDigits _)
  have power := OneLine.cons (show 'e' ≠ '\n' by decide) (.cons sign number)
  -- The point is left out after a single digit.
  cases digits with
  | nil => exact power
  | cons digit rest =>
      obtain ⟨first, others⟩ := List.forall_mem_cons.mp each
      cases rest with
      | nil => exact .cons first power
      | cons next more =>
          exact .append (.append (.cons first .nil) (.cons (by decide) others)) power

theorem oneLine_double (style : Style) (bits : UInt64) : OneLine (style.double bits).toList := by
  have signed (negative : Bool) {text : List Char} (each : OneLine text) :
      OneLine (String.ofList (if negative then '-' :: text else text)).toList := by
    rw [String.toList_ofList]
    cases negative with
    | false => exact each
    | true => exact .cons (by decide) each
  unfold Style.double
  split
  · exact .cons (by decide) (.cons (by decide) (.cons (by decide) .nil))
  · exact signed _ (.cons (by decide) (.cons (by decide) (.cons (by decide) .nil)))
  · dsimp only
    split
    · exact signed _ (.cons (by decide) (.cons (by decide) (.cons (by decide) .nil)))
    · refine signed _ ?_
      unfold Style.shortest
      dsimp only
      split
      · exact oneLine_positional (.toDigits _) _
      · exact oneLine_scientific style (.toDigits _) _

end Decimal

namespace Value

theorem oneLine_complexPart (bits : UInt64) : OneLine (complexPart bits) := by
  have whole : OneLine (floatLiteral bits).toList := Decimal.oneLine_double _ _
  unfold complexPart
  dsimp only
  split
  · exact whole.of_subset (List.take_subset _ _)
  · exact whole

theorem oneLine_complexLiteral (re im : UInt64) : OneLine (complexLiteral re im).toList := by
  have ends {c : Char} (other : c ≠ '\n') : OneLine [c] := .cons other .nil
  have close : OneLine "j)".toList := .cons (by decide) (ends (by decide))
  have part (bits : UInt64) : OneLine (String.ofList (complexPart bits)).toList := by
    rw [String.toList_ofList]
    exact oneLine_complexPart bits
  unfold complexLiteral
  dsimp only
  split
  · rw [String.toList_append]
    exact (part im).append (ends (by decide))
  · simp only [String.toList_append]
    refine .append (.append (.append (.append (ends (by decide)) (part re)) ?_) (part im)) close
    split
    · exact .nil
    · exact ends (by decide)

/-! ## What a literal shows as it is -/

/-- The values that the literal of a value writes out: those that lie in it, but not in a unit. -/
inductive Shown (inner : Value) : Value → Prop where
  | itself : Shown inner inner
  | part {part whole : Value} (member : part ∈ whole.parts) (named : ∀ unit, whole ≠ .code unit)
      (shown : Shown inner part) : Shown inner whole

theorem Shown.within {inner whole : Value} (shown : Shown inner whole) : Within inner whole := by
  induction shown with
  | itself => exact .itself
  | part member _ _ ih => exact .part member ih

/-- The texts of a value that its literal does not quote. -/
def unquoted : Value → List String
  | .long digits => [digits]
  | .code unit => [unit.name, unit.filename]
  | _ => []

theorem Shown.eq_of_partless {inner whole : Value} (shown : Shown inner whole)
    (partless : whole.parts = []) : inner = whole := by
  cases shown with
  | itself => rfl
  | part member =>
      rw [partless] at member
      cases member

theorem Shown.eq_of_code {inner : Value} {unit : CodeUnit} (shown : Shown inner (.code unit)) :
    inner = .code unit := by
  cases shown with
  | itself => rfl
  | part _ named => exact absurd rfl (named unit)

/-! ## Values -/

/-- A value whose own text brings no newline into a literal. Names and file names of units hold
none, and a long integer is in decimal. -/
def SingleLine : Value → Prop
  | .long text => ∀ c ∈ text.toList, Text.isNumeral c = true
  | .code unit => OneLine unit.name.toList ∧ OneLine unit.filename.toList
  | _ => True

theorem SingleLine.oneLine_of_mem_unquoted {value : Value} (single : value.SingleLine) :
    ∀ text ∈ value.unquoted, OneLine text.toList := by
  cases value with
  | long digits => exact List.forall_mem_singleton.mpr (.of_isNumeral single)
  | code unit => exact List.forall_mem_cons.mpr ⟨single.1, List.forall_mem_singleton.mpr single.2⟩
  | _ => exact List.forall_mem_nil _

variable {era : Era}

theorem oneLine_listed_iff {α : Type} {items : List α} {shown : α → List Char} :
    OneLine (listed (items.map shown)) ↔ ∀ item ∈ items, OneLine (shown item) :=
  (OneLine.intercalate_iff (.of_contains_eq_false rfl)).trans List.forall_mem_map

theorem oneLine_tupleEnd (items : List Value) : OneLine (tupleEnd items) := by
  unfold tupleEnd
  split
  · exact .cons (by decide) (.cons (by decide) .nil)
  · exact .cons (by decide) .nil

/-- The literal of a container stands on one line if and only if those of its items do. -/
theorem oneLine_enclosed_iff (front : List Char) {back : List Char} {α : Type} {items : List α}
    {shown : α → List Char} (opening : front.contains '\n' = Bool.false) (closing : OneLine back) :
    OneLine (front ++ (listed (items.map shown) ++ back)) ↔
      ∀ item ∈ items, OneLine (shown item) := by
  rw [OneLine.append_iff, OneLine.append_iff, oneLine_listed_iff, and_iff_left closing,
    and_iff_right (.of_contains_eq_false opening)]

theorem oneLine_pairText_iff {pair : Value × Value} :
    OneLine (pairText era pair) ↔ OneLine (text era pair.1) ∧ OneLine (text era pair.2) := by
  have between : OneLine [':', ' '] := .of_contains_eq_false rfl
  change OneLine (text era pair.1 ++ ([':', ' '] ++ text era pair.2)) ↔ _
  rw [OneLine.append_iff, OneLine.append_iff, and_iff_right between]

theorem forall_mem_parts_dict {good : Value → Prop} {pairs : List (Value × Value)} :
    (∀ part ∈ (Value.dict pairs).parts, good part) ↔ ∀ pair ∈ pairs, good pair.1 ∧ good pair.2 := by
  simp only [parts, List.forall_mem_flatMap, List.forall_mem_cons, List.not_mem_nil, false_imp_iff,
    implies_true, and_true]

/-- A literal that is put together by the grammar stands on one line if and only if those of its
parts do. -/
theorem oneLine_iff_of_spelled {form : Form} {value : Value} {chars : List Char}
    (spelled : Spelled era form value chars) :
    OneLine chars ↔ ∀ part ∈ value.parts, OneLine (text era part) := by
  have partless {chars : List Char} (oneLine : OneLine chars) :
      OneLine chars ↔ ∀ part ∈ ([] : List Value), OneLine (text era part) :=
    iff_of_true oneLine (List.forall_mem_nil _)
  cases spelled with
  | null | none | true | false | stopIteration | ellipsis | emptySet | emptyFrozenset =>
      exact partless (.of_contains_eq_false (by decide))
  | int n => exact partless (.toString_int n)
  | long _ n => exact partless ((OneLine.toString_int n).append (.of_contains_eq_false (by decide)))
  | markedBytes _ content => exact partless (.cons (by decide) (.quoteBytes content))
  | bytes _ content => exact partless (.quoteBytes content)
  | markedText _ content => exact partless (.cons (by decide) (.quoteText content))
  | text _ content => exact partless (.quoteText content)
  | tuple values => exact oneLine_enclosed_iff ['('] rfl (oneLine_tupleEnd values)
  | list => exact oneLine_enclosed_iff ['['] rfl (.of_contains_eq_false rfl)
  | dict pairs =>
      rw [forall_mem_parts_dict]
      simp only [← oneLine_pairText_iff]
      exact oneLine_enclosed_iff ['\x7b'] rfl (.of_contains_eq_false rfl)
  | set => exact oneLine_enclosed_iff ['\x7b'] rfl (.of_contains_eq_false rfl)
  | legacySet => exact oneLine_enclosed_iff _ (by decide) (.of_contains_eq_false rfl)
  | frozenset => exact oneLine_enclosed_iff _ (by decide) (.of_contains_eq_false rfl)
  | legacyFrozenset => exact oneLine_enclosed_iff _ (by decide) (.of_contains_eq_false rfl)

theorem oneLine_code_iff {unit : CodeUnit} :
    OneLine (text era (.code unit)) ↔
      OneLine unit.name.toList ∧ OneLine unit.filename.toList := by
  change OneLine ("<code object " ++ unit.name ++ ", file \"" ++ unit.filename ++ "\", line " ++
    toString unit.firstLine.toNat ++ ">").toList ↔ _
  have front : OneLine "<code object ".toList := .of_contains_eq_false rfl
  have file : OneLine ", file \"".toList := .of_contains_eq_false rfl
  have line : OneLine "\", line ".toList := .of_contains_eq_false rfl
  have number : OneLine (toString unit.firstLine.toNat).toList := .toString_nat _
  have back : OneLine ">".toList := .of_contains_eq_false rfl
  simp only [String.toList_append, OneLine.append_iff, front, file, line, number, back, true_and,
    and_true]

theorem oneLine_long_iff {digits : String} :
    OneLine (text era (.long digits)) ↔ OneLine digits.toList := by
  change OneLine (if era = .legacy then digits ++ "L" else digits).toList ↔ _
  split
  · rw [String.toList_append, OneLine.append_iff, and_iff_left (.of_contains_eq_false rfl)]
  · exact Iff.rfl

/-- **Literals quote newlines** but for those of unquoted texts: a literal stands on one line if and
only if each of the texts that it shows as they are does. The induction is on the parts of the
value. -/
theorem oneLine_literal_iff {value : Value} :
    OneLine (value.literal era).toList ↔
      ∀ inner, Shown inner value → ∀ text ∈ inner.unquoted, OneLine text.toList := by
  induction value using parts_induction with
  | step value ih =>
  have alone {value : Value} (only : ∀ inner, Shown inner value → inner = value) :
      (∀ inner, Shown inner value → ∀ text ∈ inner.unquoted, OneLine text.toList) ↔
        ∀ text ∈ value.unquoted, OneLine text.toList := by
    constructor
    · exact fun each => each value .itself
    · intro own inner shown
      rwa [only inner shown]
  have plainly (plain : value.Plain era) (quoted : value.unquoted = [])
      (named : ∀ unit, value ≠ .code unit) : OneLine (value.literal era).toList ↔
        ∀ inner, Shown inner value → ∀ text ∈ inner.unquoted, OneLine text.toList := by
    obtain ⟨form, spelled⟩ := exists_spelled plain
    refine (oneLine_iff_of_spelled spelled).trans ?_
    constructor
    · intro parts inner shown
      cases shown with
      | itself =>
          rw [quoted]
          exact List.forall_mem_nil _
      | part member _ shown => exact (ih _ member).mp (parts _ member) inner shown
    · intro each part member
      exact (ih part member).mpr fun inner shown => each inner (.part member named shown)
  cases value with
  | float bits =>
      rw [alone fun _ shown => shown.eq_of_partless rfl]
      exact iff_of_true (Decimal.oneLine_double _ _) (List.forall_mem_nil _)
  | complex re im =>
      rw [alone fun _ shown => shown.eq_of_partless rfl]
      exact iff_of_true (oneLine_complexLiteral re im) (List.forall_mem_nil _)
  | code unit =>
      rw [alone fun _ shown => shown.eq_of_code]
      rw [unquoted, List.forall_mem_cons, List.forall_mem_singleton]
      exact oneLine_code_iff
  | long digits =>
      rw [alone fun _ shown => shown.eq_of_partless rfl]
      rw [unquoted, List.forall_mem_singleton]
      exact oneLine_long_iff
  | _ => exact plainly trivial rfl nofun

end Value

end PycListing
