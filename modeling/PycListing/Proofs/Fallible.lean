import Mathlib.Data.List.Basic

/-! # Steps that may fail

A function of its result neither makes a step fail nor mends one that does. Steps over a list are
taken in its order. They come to a result if each of them does; otherwise the error is that of the
first one that fails.
-/

namespace PycListing

variable {ε α β : Type} {f : α → Except ε β}

theorem exists_eq_ok_iff {step : Except ε α} :
    (∃ result, step = .ok result) ↔ ∀ error, step ≠ .error error := by
  cases step with
  | error error => simp only [reduceCtorEq, exists_false, ne_eq, Except.error.injEq, forall_eq']
  | ok result =>
      simp only [Except.ok.injEq, exists_eq', ne_eq, reduceCtorEq, not_false_eq_true, implies_true]

theorem map_eq_error_iff {step : Except ε α} {g : α → β} {error : ε} :
    step.map g = .error error ↔ step = .error error := by
  cases step <;> simp only [Except.map, reduceCtorEq, Except.error.injEq]

theorem exists_map_eq_ok_iff {step : Except ε α} {g : α → β} :
    (∃ result, step.map g = .ok result) ↔ ∃ result, step = .ok result := by
  cases step <;> simp only [Except.map, reduceCtorEq, exists_false, Except.ok.injEq, exists_eq']

theorem exists_of_map_eq_ok {step : Except ε α} {g : α → β} {result : β}
    (passed : step.map g = .ok result) : ∃ found, step = .ok found ∧ g found = result := by
  cases step with
  | error error => cases passed
  | ok found => exact ⟨found, rfl, Except.ok.inj passed⟩

/-- Two steps come to a result if the first one does, and the second one does with what the first
one came to. -/
theorem except_bind_eq_ok {step : Except ε α} {next : α → Except ε β} {result : β}
    (passed : (step >>= next) = .ok result) :
    ∃ found, step = .ok found ∧ next found = .ok result := by
  cases step with
  | error error => cases passed
  | ok found => exact ⟨found, rfl, passed⟩

theorem mapM_cons_of_error {item : α} {error : ε} (failed : f item = .error error)
    (items : List α) : (item :: items).mapM f = .error error := by
  rw [List.mapM_cons, failed]
  rfl

theorem mapM_cons_of_ok {item : α} {result : β} (passed : f item = .ok result) (items : List α) :
    (item :: items).mapM f = (items.mapM f).map (result :: ·) := by
  rw [List.mapM_cons, passed]
  cases items.mapM f <;> rfl

theorem mapM_eq_ok {items : List α} (result : α → β)
    (passed : ∀ item ∈ items, f item = .ok (result item)) :
    items.mapM f = .ok (items.map result) := by
  induction items with
  | nil => rfl
  | cons item items ih =>
      obtain ⟨first, others⟩ := List.forall_mem_cons.mp passed
      rw [mapM_cons_of_ok first, ih others]
      rfl

theorem length_of_mapM {items : List α} {results : List β}
    (passed : items.mapM f = .ok results) : results.length = items.length := by
  induction items generalizing results with
  | nil =>
      cases passed
      rfl
  | cons item items ih =>
      cases first : f item with
      | error error =>
          rw [mapM_cons_of_error first] at passed
          cases passed
      | ok result =>
          rw [mapM_cons_of_ok first] at passed
          obtain ⟨rest, found, rfl⟩ := exists_of_map_eq_ok passed
          rw [List.length_cons, List.length_cons, ih found]

/-- Each result is that of some item. -/
theorem exists_of_mem_mapM {items : List α} {results : List β}
    (passed : items.mapM f = .ok results) {result : β} (member : result ∈ results) :
    ∃ item ∈ items, f item = .ok result := by
  induction items generalizing results with
  | nil =>
      cases passed
      cases member
  | cons item items ih =>
      cases first : f item with
      | error error =>
          rw [mapM_cons_of_error first] at passed
          cases passed
      | ok own =>
          rw [mapM_cons_of_ok first] at passed
          cases others : items.mapM f with
          | error error =>
              rw [others] at passed
              cases passed
          | ok rest =>
              rw [others] at passed
              cases passed
              rcases List.mem_cons.mp member with rfl | inRest
              · exact ⟨item, List.mem_cons_self, first⟩
              · obtain ⟨source, inItems, found⟩ := ih others inRest
                exact ⟨source, List.mem_cons_of_mem _ inItems, found⟩

/-- Results tell the items they come from, if each of them does. -/
theorem map_eq_of_mapM {items : List α} {results : List β} {back : β → α}
    (passed : items.mapM f = .ok results)
    (tells : ∀ item ∈ items, ∀ result, f item = .ok result → back result = item) :
    results.map back = items := by
  induction items generalizing results with
  | nil =>
      cases passed
      rfl
  | cons item items ih =>
      obtain ⟨own, others⟩ := List.forall_mem_cons.mp tells
      cases first : f item with
      | error error =>
          rw [mapM_cons_of_error first] at passed
          cases passed
      | ok result =>
          rw [mapM_cons_of_ok first] at passed
          obtain ⟨rest, found, rfl⟩ := exists_of_map_eq_ok passed
          rw [List.map_cons, own result first, ih found others]

/-- The error is that of the first step that fails. -/
theorem mapM_eq_error_iff {items : List α} {error : ε} :
    items.mapM f = .error error ↔ ∃ before item after, items = before ++ item :: after ∧
      (∀ earlier ∈ before, ∃ result, f earlier = .ok result) ∧ f item = .error error := by
  constructor
  · intro failed
    induction items with
    | nil => cases failed
    | cons item items ih =>
        cases first : f item with
        | error other =>
            rw [mapM_cons_of_error first] at failed
            cases failed
            exact ⟨[], item, items, rfl, List.forall_mem_nil _, first⟩
        | ok result =>
            rw [mapM_cons_of_ok first, map_eq_error_iff] at failed
            obtain ⟨before, last, after, rfl, passed, error⟩ := ih failed
            exact ⟨item :: before, last, after, rfl,
              List.forall_mem_cons.mpr ⟨⟨result, first⟩, passed⟩, error⟩
  · rintro ⟨before, item, after, rfl, passed, failed⟩
    induction before with
    | nil => exact mapM_cons_of_error failed after
    | cons earlier before ih =>
        obtain ⟨⟨result, first⟩, others⟩ := List.forall_mem_cons.mp passed
        rw [List.cons_append, mapM_cons_of_ok first, ih others]
        rfl

theorem exists_mapM_eq_ok_iff {items : List α} :
    (∃ results, items.mapM f = .ok results) ↔ ∀ item ∈ items, ∃ result, f item = .ok result := by
  constructor
  · rintro ⟨results, passed⟩
    induction items generalizing results with
    | nil => exact List.forall_mem_nil _
    | cons item items ih =>
        cases first : f item with
        | error error =>
            rw [mapM_cons_of_error first] at passed
            cases passed
        | ok result =>
            rw [mapM_cons_of_ok first] at passed
            obtain ⟨others, rest⟩ := exists_map_eq_ok_iff.mp ⟨results, passed⟩
            exact List.forall_mem_cons.mpr ⟨⟨result, first⟩, ih others rest⟩
  · intro passed
    cases all : items.mapM f with
    | ok results => exact ⟨results, rfl⟩
    | error error =>
        obtain ⟨before, item, after, rfl, _, failed⟩ := mapM_eq_error_iff.mp all
        obtain ⟨result, found⟩ := passed item (List.mem_append_right _ List.mem_cons_self)
        rw [failed] at found
        cases found

end PycListing
