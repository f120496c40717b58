import Mathlib.Data.List.Basic
import Mathlib.Data.List.DropRight
import PycListing.Text.Blank
import PycListing.Text.Number

/-! # Words of a text

A text of columns that are padded with spaces is read as its words, so neither the widths of the
columns nor empty columns matter (`PycListing.Text.words_flatMap_column`). Blanks at the end of a
text are dropped up to the last word.
-/

namespace PycListing.Text

/-! ## Columns -/

theorem toList_padLeft (width : Nat) (text : String) : (padLeft width text).toList =
    List.replicate (width - text.length) ' ' ++ text.toList := by
  rw [padLeft, String.toList_append, String.toList_ofList]

theorem toList_padRight (width : Nat) (text : String) : (padRight width text).toList =
    text.toList ++ List.replicate (width - text.length) ' ' := by
  rw [padRight, String.toList_append, String.toList_ofList]

/-- The spaces that end a column, the one between columns and those that start a column run
together. -/
theorem replicate_append_space_cons (first second : Nat) (rest : List Char) :
    List.replicate first ' ' ++ ' ' :: (List.replicate second ' ' ++ rest) =
      List.replicate (first + second + 1) ' ' ++ rest := by
  rw [← List.cons_append, ← List.replicate_succ, ← List.append_assoc,
    List.replicate_append_replicate, Nat.add_assoc]

/-- Joining columns puts a space behind each but the last. -/
theorem intercalate_append_cons (columns : List String) (next : String) (others : List String) :
    [' '].intercalate ((columns ++ next :: others).map String.toList) =
      (columns.flatMap fun column => column.toList ++ [' ']) ++
        [' '].intercalate ((next :: others).map String.toList) := by
  induction columns with
  | nil => rfl
  | cons column columns ih =>
      have some : (columns ++ next :: others).map String.toList ≠ [] := by
        rw [List.map_append, List.map_cons]
        exact List.append_ne_nil_of_right_ne_nil _ (List.cons_ne_nil _ _)
      rw [List.cons_append, List.map_cons, List.intercalate_cons_of_ne_nil some, ih,
        List.flatMap_cons, List.append_assoc, List.append_assoc, List.append_assoc]

/-- What holds of the characters of a separator holds of those of joined texts if and only if it
holds of those of each text. -/
theorem forall_mem_intercalate {holds : Char → Prop} {separator : List Char}
    (between : ∀ c ∈ separator, holds c) {texts : List (List Char)} :
    (∀ c ∈ separator.intercalate texts, holds c) ↔ ∀ text ∈ texts, ∀ c ∈ text, holds c := by
  induction texts with
  | nil => exact iff_of_true (List.forall_mem_nil _) (List.forall_mem_nil _)
  | cons text texts ih =>
      rw [List.forall_mem_cons]
      cases texts with
      | nil =>
          rw [List.intercalate_singleton]
          exact (and_iff_left (List.forall_mem_nil _)).symm
      | cons next texts =>
          rw [List.intercalate_cons_cons, List.forall_mem_append, List.forall_mem_append, ih,
            and_iff_left between]

/-! ## Words -/

/-- What stands between the separators of a text holds none. -/
theorem not_mem_of_mem_splitOn {separator : Char} {text piece : List Char}
    (member : piece ∈ text.splitOn separator) : separator ∉ piece := by
  induction text generalizing piece with
  | nil =>
      rw [List.splitOn_nil] at member
      rw [List.mem_singleton.mp member]
      exact List.not_mem_nil
  | cons c rest ih =>
      rw [List.splitOn_cons_eq_if_modifyHead] at member
      split at member
      · rcases List.mem_cons.mp member with rfl | inRest
        · exact List.not_mem_nil
        · exact ih inRest
      · rename_i other
        cases pieces : rest.splitOn separator with
        | nil => exact absurd pieces (List.splitOn_ne_nil _ _)
        | cons front others =>
            rw [pieces] at ih member
            obtain ⟨inFront, inOthers⟩ := List.forall_mem_cons.mp fun _ => ih
            rcases List.mem_cons.mp member with rfl | inRest
            · intro among
              rcases List.mem_cons.mp among with same | inside
              · exact other (beq_iff_eq.mpr same.symm)
              · exact inFront inside
            · exact inOthers _ inRest

/-- What stands between the spaces of a text. -/
def words (text : List Char) : List (List Char) :=
  (text.splitOn ' ').filter (!·.isEmpty)

theorem words_append_space (first second : List Char) :
    words (first ++ ' ' :: second) = words first ++ words second := by
  rw [words, List.splitOn_append_cons_self, List.filter_append]
  rfl

theorem words_replicate_append (count : Nat) (text : List Char) :
    words (List.replicate count ' ' ++ text) = words text := by
  induction count with
  | zero => rfl
  | succ count ih => exact (words_append_space [] _).trans ih

theorem words_eq_singleton {word : List Char} (some : word ≠ []) (solid : ' ' ∉ word) :
    words word = [word] := by
  have counts : (!word.isEmpty) = true := by
    rwa [Bool.not_eq_true', List.isEmpty_eq_false_iff]
  rw [words, List.splitOn_eq_singleton solid, List.filter_singleton, counts, cond_true]

theorem words_padLeft (width : Nat) (text : String) :
    words (padLeft width text).toList = words text.toList := by
  rw [toList_padLeft, words_replicate_append]

/-- The words of columns, each with a space behind it, are those of the single columns. -/
theorem words_flatMap_column (columns : List String) :
    words (columns.flatMap fun column => column.toList ++ [' ']) =
      columns.flatMap fun column => words column.toList := by
  induction columns with
  | nil => rfl
  | cons column columns ih =>
      rw [List.flatMap_cons, List.flatMap_cons, List.append_assoc, List.singleton_append,
        words_append_space, ih]

/-! ## Blanks -/

theorem isBlank_space : isBlank ' ' = true :=
  rfl

/-- Printable ASCII characters are not blank. -/
theorem isBlank_eq_false {c : Char} (low : 0x21 ≤ c.toNat) (high : c.toNat ≤ 0x7e) :
    isBlank c = false := by
  simp only [isBlank, blankRanges, List.any_cons, List.any_nil, Bool.or_false,
    Bool.or_eq_false_iff, Bool.and_eq_false_iff, decide_eq_false_iff_not]
  omega

theorem isBlank_eq_false_of_isDigit {c : Char} (digit : c.isDigit = true) : isBlank c = false := by
  simp only [Char.isDigit, Bool.and_eq_true, decide_eq_true_eq, ge_iff_le,
    UInt32.le_iff_toNat_le] at digit
  have low : 48 ≤ c.toNat := digit.1
  have high : c.toNat ≤ 57 := digit.2
  exact isBlank_eq_false (by omega) (by omega)

theorem isBlank_eq_false_of_mem_toDigits {n : Nat} {c : Char} (member : c ∈ Nat.toDigits 10 n) :
    isBlank c = false :=
  isBlank_eq_false_of_isDigit (Nat.isDigit_of_mem_toDigits (by decide) (by decide) member)

theorem ne_space_of_isBlank_eq_false {c : Char} (solid : isBlank c = false) : c ≠ ' ' := by
  rintro rfl
  cases solid

theorem trimEndChars_append_blanks (front : List Char) {blanks : List Char}
    (blank : ∀ c ∈ blanks, isBlank c = true) :
    trimEndChars (front ++ blanks) = trimEndChars front := by
  rw [trimEndChars, List.reverse_append, List.dropWhile_append_of_pos, trimEndChars]
  exact fun c member => blank c (List.mem_reverse.mp member)

/-- Blanks are dropped up to the last word. -/
theorem trimEndChars_append_word (front : List Char) {word : List Char} (some : word ≠ [])
    (solid : ∀ c ∈ word, isBlank c = false) : trimEndChars (front ++ word) = front ++ word := by
  refine List.rdropWhile_eq_self_iff.mpr fun _ => ?_
  rw [List.getLast_append_of_ne_nil _ some, solid _ (List.getLast_mem some)]
  exact Bool.false_ne_true

end PycListing.Text
