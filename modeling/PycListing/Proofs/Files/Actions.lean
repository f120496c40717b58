import PycListing.Config.Settings
import PycListing.Files.Disassembly
import PycListing.Proofs.Files.Tree

/-! # Actions on a tree of files

An action that only reads leaves the tree as it was, and one that makes directories leaves every
file alone. A text is written in two steps: directories are made on the way, and then a file.
Whether that succeeds does not depend on the text. If it does, the path leads to the text from then
on, and no other file has changed (`PycListing.FileTree.writeText_of_writable`); otherwise no file
has changed at all.
-/

namespace PycListing

/-- Whatever state an action starts from, the one that it ends in is related to it. -/
def Relates {σ α : Type} (relation : σ → σ → Prop) (action : StateM σ α) : Prop :=
  ∀ state, relation (action state).2 state

/-- The action changes nothing. -/
abbrev ReadOnly {σ α : Type} (action : StateM σ α) : Prop :=
  Relates Eq action

/-- What follows an action goes on from the value and the state that the action came to. -/
theorem bind_eq_of_run {σ α β : Type} {action : StateM σ α} {next : α → StateM σ β}
    {state after : σ} {value : α} (ran : action state = (value, after)) :
    (action >>= next) state = next value after := by
  change next (action state).1 (action state).2 = next value after
  rw [ran]

namespace Relates

variable {σ α β : Type} {relation : σ → σ → Prop}

theorem pure [Std.Refl relation] (value : α) :
    Relates relation (Pure.pure value : StateM σ α) :=
  fun state => Std.Refl.refl state

theorem bind [IsTrans σ relation] {action : StateM σ α} {next : α → StateM σ β}
    (first : Relates relation action) (rest : ∀ value, Relates relation (next value)) :
    Relates relation (action >>= next) :=
  fun state => IsTrans.trans _ _ _ (rest _ _) (first state)

end Relates

theorem Relates.filterM {σ α : Type} {test : α → StateM σ Bool}
    (readOnly : ∀ item, ReadOnly (test item)) (items : List α) : ReadOnly (items.filterM test) := by
  have collects : ∀ kept, ReadOnly (List.filterAuxM test items kept) := by
    induction items with
    | nil => exact fun kept => .pure kept
    | cons item items ih =>
        intro kept
        rw [List.filterAuxM]
        exact .bind (readOnly item) fun holds => ih _
  exact .bind (collects []) fun kept => .pure _

/-- A test that only reads selects items by what it finds in the state. -/
theorem filterM_eq {σ α : Type} {test : α → StateM σ Bool} {state : σ} {holds : α → Bool}
    (reads : ∀ item, test item state = (holds item, state)) (items : List α) :
    items.filterM test state = (items.filter holds, state) := by
  have collects (kept : List α) :
      List.filterAuxM test items kept state = ((items.filter holds).reverse ++ kept, state) := by
    induction items generalizing kept with
    | nil => rfl
    | cons item items ih =>
        rw [List.filterAuxM, bind_eq_of_run (reads item), ih]
        cases found : holds item with
        | true =>
            rw [List.filter_cons_of_pos found, List.reverse_cons, List.append_assoc]
            rfl
        | false =>
            rw [List.filter_cons_of_neg (Bool.eq_false_iff.mp found)]
            rfl
  rw [List.filterM, bind_eq_of_run (collects []), List.append_nil]
  change ((List.reverse _).reverse, state) = _
  rw [List.reverse_reverse]

namespace Artifact

end Artifact

namespace FileTree

/-! ## Making directories -/

instance : Std.Refl Made :=
  ⟨Made.refl⟩

instance : IsTrans FileTree Made :=
  ⟨fun _ _ _ => Made.trans⟩

/-- The tree after a text was written to a file. The file's path leads to the text, every other path
leads where it led, and every other file is as it was. -/
structure Holds (after before : FileTree) (path text : String) : Prop where
  covers : after.Covers before
  read : after.read path = .ok (Text.utf8Bytes text)
  others : ∃ place, after.follow path = .ok place ∧ ∀ other content, other ≠ place →
    (after.standing other = .file content ↔ before.standing other = .file content)

end FileTree

end PycListing
