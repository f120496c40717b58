import PycListing.Proofs.Text.Numeral
import PycListing.Proofs.Text.Quoted
import PycListing.Proofs.Text.Words
import Mathlib.Data.List.Basic

/-! # Texts of one line

Numbers and quoted literals hold no newline. Texts joined by newlines are split at those, and at
their own (`PycListing.Text.splitOn_intercalate_newline`), so that texts that hold none are read
back from the lines that they make up (`PycListing.Text.lines_intercalate`).
-/

namespace PycListing.Text

/-- A text without a newline. -/
def OneLine (text : List Char) : Prop :=
  ∀ c ∈ text, c ≠ '\n'

namespace OneLine

variable {first second : List Char}

theorem nil : OneLine [] :=
  List.forall_mem_nil _

theorem cons {c : Char} (other : c ≠ '\n') (rest : OneLine first) : OneLine (c :: first) :=
  List.forall_mem_cons.mpr ⟨other, rest⟩

theorem append_iff : OneLine (first ++ second) ↔ OneLine first ∧ OneLine second :=
  List.forall_mem_append

theorem append (left : OneLine first) (right : OneLine second) : OneLine (first ++ second) :=
  append_iff.mpr ⟨left, right⟩

theorem of_subset (whole : OneLine first) (part : second ⊆ first) : OneLine second :=
  fun c member => whole c (part member)

theorem of_contains_eq_false (absent : first.contains '\n' = false) : OneLine first := by
  rintro c member rfl
  rw [List.contains_iff_mem.mpr member] at absent
  cases absent

theorem replicate {c : Char} (other : c ≠ '\n') (count : Nat) : OneLine (List.replicate count c) :=
  fun _ member => List.eq_of_mem_replicate member ▸ other

/-- Joined texts hold no newline if and only if none of them does. -/
theorem intercalate_iff {separator : List Char} (between : OneLine separator)
    {texts : List (List Char)} :
    OneLine (separator.intercalate texts) ↔ ∀ text ∈ texts, OneLine text :=
  forall_mem_intercalate between

/-! ## Numbers and quoted literals -/

theorem of_isNumeral {text : List Char} (numeral : ∀ c ∈ text, isNumeral c = true) :
    OneLine text := by
  rintro c member rfl
  cases numeral _ member

theorem toString_int (n : Int) : OneLine (toString n).toList :=
  of_isNumeral fun _ => isNumeral_of_mem

theorem toDigits (n : Nat) : OneLine (Nat.toDigits 10 n) := by
  rintro c member rfl
  cases Nat.isDigit_of_mem_toDigits (by decide) (by decide) member

theorem toString_nat (n : Nat) : OneLine (toString n).toList := by
  rw [toList_toString_nat]
  exact toDigits n

/-- A literal that shows no newline stands on one line. -/
theorem quoteChars {plain : Char → Bool} (hidden : plain '\n' = false)
    (visible : ∀ c, plainInBytes c = true → plain c = true) {content : List Char}
    (small : ∀ c ∈ content, plain c = false → c.toNat < 256) :
    OneLine (Text.quoteChars plain content) := by
  rintro c member rfl
  have stands := plain_of_mem_quoteChars visible small _ member
  rw [hidden] at stands
  cases stands

theorem quoteText (text : String) : OneLine (Text.quoteText text).toList := by
  rw [Text.quoteText, String.toList_ofList]
  exact quoteChars rfl (fun _ => plainInText_of_plainInBytes)
    fun _ _ => toNat_lt_of_not_plainInText

theorem quoteBytes (bytes : List UInt8) : OneLine (Text.quoteBytes bytes).toList := by
  rw [Text.quoteBytes, String.toList_ofList]
  exact quoteChars rfl (fun _ => id) fun _ member _ => toNat_lt_of_mem_map_ofNat member

end OneLine

/-! ## Lines of a text -/

/-- What stands between the newlines of a text holds none. -/
theorem oneLine_of_mem_splitOn {text piece : List Char} (member : piece ∈ text.splitOn '\n') :
    OneLine piece := by
  rintro c among rfl
  exact not_mem_of_mem_splitOn member among

theorem splitOn_eq_singleton_iff {text : List Char} :
    text.splitOn '\n' = [text] ↔ OneLine text := by
  constructor
  · intro whole
    exact oneLine_of_mem_splitOn (whole ▸ List.mem_singleton_self text)
  · intro oneLine
    exact List.splitOn_eq_singleton fun member => oneLine _ member rfl

/-- Texts joined by newlines are split into what each of them is split into. -/
theorem splitOn_intercalate_newline {texts : List (List Char)} (some : texts ≠ []) :
    (['\n'].intercalate texts).splitOn '\n' = texts.flatMap (List.splitOn '\n') := by
  induction texts with
  | nil => exact absurd rfl some
  | cons text texts ih =>
      cases texts with
      | nil => rw [List.intercalate_singleton, List.flatMap_singleton]
      | cons next texts =>
          rw [List.intercalate_cons_cons, List.append_assoc, List.singleton_append,
            List.splitOn_append_cons_self, ih (List.cons_ne_nil _ _), ← List.flatMap_cons]

/-- Splitting each of some texts leaves them as they are if and only if none holds a newline. -/
theorem flatMap_splitOn_eq_iff {texts : List (List Char)} :
    texts.flatMap (List.splitOn '\n') = texts ↔ ∀ text ∈ texts, OneLine text := by
  constructor
  · intro same text member
    rw [← same] at member
    obtain ⟨whole, -, piece⟩ := List.mem_flatMap.mp member
    exact oneLine_of_mem_splitOn piece
  · intro oneLine
    rw [List.flatMap_congr fun text member => splitOn_eq_singleton_iff.mpr (oneLine text member)]
    exact List.flatMap_singleton' texts

/-- The lines of a text that are not empty. -/
def lines (text : List Char) : List (List Char) :=
  (text.splitOn '\n').filter (!·.isEmpty)

/-- Texts of one line are read back from the text that they make up, but for the empty ones. -/
theorem lines_intercalate {texts : List (List Char)} (each : ∀ text ∈ texts, OneLine text) :
    lines (['\n'].intercalate texts) = texts.filter (!·.isEmpty) := by
  by_cases none : texts = []
  · subst none
    rfl
  · rw [lines, splitOn_intercalate_newline none, flatMap_splitOn_eq_iff.mpr each]

end PycListing.Text
