import SqlForest.Parse.Script

/-!
# Gathering results

`gather` yields values if and only if there are no errors (`gather_eq_ok`), and otherwise exactly
the errors (`gather_eq_error`).
-/

namespace SqlForest

variable {ε α : Type}

/-- The error of a result. -/
def errorOf? : Except ε α → Option ε
  | .error e => some e
  | .ok _ => none

theorem gather_eq (results : List (Except ε α)) :
    gather results =
      if (results.filterMap errorOf?).isEmpty then .ok (results.filterMap Except.toOption)
      else .error (results.filterMap errorOf?) := rfl

theorem filterMap_errorOf?_eq_nil {results : List (Except ε α)} :
    results.filterMap errorOf? = [] ↔ ∃ as : List α, results = as.map .ok := by
  induction results with
  | nil =>
    constructor
    · intro _
      exact ⟨[], rfl⟩
    · intro _
      rfl
  | cons result results ih =>
    cases result with
    | ok a =>
      constructor
      · intro h
        obtain ⟨as, has⟩ := ih.mp h
        exact ⟨a :: as, by rw [has]; rfl⟩
      · rintro ⟨as, has⟩
        cases as with
        | nil => simp at has
        | cons b as =>
          simp only [List.map_cons, List.cons.injEq] at has
          exact ih.mpr ⟨as, has.2⟩
    | error e =>
      constructor
      · intro h
        simp [errorOf?] at h
      · rintro ⟨as, has⟩
        cases as with
        | nil => simp at has
        | cons b as => simp at has

theorem filterMap_toOption_map_ok (as : List α) :
    (as.map (.ok : α → Except ε α)).filterMap Except.toOption = as := by
  induction as with
  | nil => rfl
  | cons a as ih =>
    show a :: (as.map (.ok : α → Except ε α)).filterMap Except.toOption = a :: as
    rw [ih]

theorem filterMap_toOption_map_error (es : List ε) :
    (es.map (.error : ε → Except ε α)).filterMap Except.toOption = [] := by
  induction es with
  | nil => rfl
  | cons e es ih => exact ih

theorem filterMap_errorOf?_map_error (es : List ε) :
    (es.map (.error : ε → Except ε α)).filterMap errorOf? = es := by
  induction es with
  | nil => rfl
  | cons e es ih =>
    show e :: (es.map (.error : ε → Except ε α)).filterMap errorOf? = e :: es
    rw [ih]

/-- Values are gathered exactly from results without an error. -/
theorem gather_eq_ok {results : List (Except ε α)} {as : List α} :
    gather results = .ok as ↔ results = as.map .ok := by
  rw [gather_eq]
  constructor
  · intro h
    by_cases hempty : (results.filterMap errorOf?).isEmpty
    · obtain ⟨bs, rfl⟩ := filterMap_errorOf?_eq_nil.mp (List.isEmpty_iff.mp hempty)
      rw [if_pos hempty, filterMap_toOption_map_ok] at h
      rw [Except.ok.inj h]
    · rw [if_neg hempty] at h
      simp at h
  · intro h
    have hnone : results.filterMap errorOf? = [] := filterMap_errorOf?_eq_nil.mpr ⟨as, h⟩
    rw [hnone, h, filterMap_toOption_map_ok]
    rfl

/-- Errors are gathered exactly when there are some, and then all of them. -/
theorem gather_eq_error {results : List (Except ε α)} {es : List ε} :
    gather results = .error es ↔ es ≠ [] ∧ results.filterMap errorOf? = es := by
  rw [gather_eq]
  constructor
  · intro h
    by_cases hempty : (results.filterMap errorOf?).isEmpty
    · rw [if_pos hempty] at h
      simp at h
    · rw [if_neg hempty] at h
      have heq : results.filterMap errorOf? = es := Except.error.inj h
      refine ⟨?_, heq⟩
      intro hnil
      rw [heq, hnil] at hempty
      exact hempty rfl
  · rintro ⟨hne, rfl⟩
    have hempty : ¬ (results.filterMap errorOf?).isEmpty := by
      intro h
      exact hne (List.isEmpty_iff.mp h)
    rw [if_neg hempty]

theorem filterMap_errorOf?_mapError {δ : Type} (f : ε → δ) (results : List (Except ε α)) :
    (results.map (Except.mapError f)).filterMap errorOf? =
      (results.filterMap errorOf?).map f := by
  induction results with
  | nil => rfl
  | cons result results ih =>
    cases result with
    | ok a => exact ih
    | error e =>
      show f e :: (results.map (Except.mapError f)).filterMap errorOf? = _
      rw [ih]
      rfl

/-- What is done to every error may be done to the gathered ones. -/
theorem gather_mapError {δ : Type} (f : ε → δ) (results : List (Except ε α)) :
    gather (results.map (Except.mapError f)) = (gather results).mapError (List.map f) := by
  cases hgather : gather results with
  | ok as =>
    rw [gather_eq_ok.mp hgather, List.map_map]
    exact gather_eq_ok.mpr rfl
  | error es =>
    obtain ⟨hne, herrors⟩ := gather_eq_error.mp hgather
    refine gather_eq_error.mpr ⟨?_, ?_⟩
    · intro hnil
      exact hne (List.map_eq_nil_iff.mp hnil)
    · rw [filterMap_errorOf?_mapError, herrors]

/-- What is done to every value may be done to the gathered ones. -/
theorem gather_map {β : Type} (g : α → β) (results : List (Except ε α)) :
    gather (results.map (Except.map g)) = (gather results).map (List.map g) := by
  cases hgather : gather results with
  | ok as =>
    rw [gather_eq_ok.mp hgather, List.map_map]
    refine gather_eq_ok.mpr ?_
    rw [List.map_map]
    rfl
  | error es =>
    obtain ⟨hne, herrors⟩ := gather_eq_error.mp hgather
    have hsame : errorOf? ∘ Except.map g = errorOf? (ε := ε) := by
      funext result
      cases result <;> rfl
    refine gather_eq_error.mpr ⟨hne, ?_⟩
    rw [← herrors, List.filterMap_map, hsame]

end SqlForest
