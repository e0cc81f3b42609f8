import SqlForest.Proofs.Gather
import SqlForest.Proofs.Grammar.Lookahead

/-!
# Reading over and over

`readings` bounds its own number by a budget.  For a rule that reads whole statements a budget of as
many tokens as there are is always enough (`readings_budget`), so that the readings of a list are
the reading of its first statement and those of the tokens behind it.
-/

namespace SqlForest

variable {α : Type}

/-! ## Any budget that is enough -/

theorem length_afterSemicolon (tokens : List Token) :
    (afterSemicolon tokens).length ≤ tokens.length - 1 := by
  induction tokens with
  | nil => simp [afterSemicolon]
  | cons t tokens ih =>
    unfold afterSemicolon
    split
    · simp
    · simp only [List.length_cons]
      omega

namespace Rule

variable {rule : Rule α}

/-- A rule for statements reads at least the last token of one. -/
theorem Whole.length_lt (h : Whole rule) {tokens rest : List Token} {a : α}
    (hr : rule tokens = .ok (a, rest)) : rest.length < tokens.length := by
  obtain ⟨used, last, hused, -⟩ := h.ends tokens a rest hr
  rw [hused, List.length_append, List.length_cons]
  omega

theorem Whole.length_le (h : Whole rule) {tokens : List Token} {failure : Failure}
    (hr : rule tokens = .error failure) : failure.rest.length ≤ tokens.length := by
  obtain ⟨used, hused, -⟩ := h.fails tokens failure hr
  rw [hused, List.length_append]
  omega

end Rule

section Budget

variable {rule : Rule α}

theorem readings_nil (rule : Rule α) (budget : List Token) : readings rule budget [] = [] := by
  cases budget with
  | nil => rfl
  | cons b budget => rfl

theorem readings_budget (h : rule.Whole) {budget budget' tokens : List Token}
    (hb : tokens.length ≤ budget.length) (hb' : tokens.length ≤ budget'.length) :
    readings rule budget tokens = readings rule budget' tokens := by
  induction budget generalizing budget' tokens with
  | nil =>
    obtain rfl : tokens = [] := List.eq_nil_of_length_eq_zero (by simpa using hb)
    rw [readings_nil, readings_nil]
  | cons b budget ih =>
    cases tokens with
    | nil => rw [readings_nil, readings_nil]
    | cons t tokens =>
      cases budget' with
      | nil => simp at hb'
      | cons b' budget' =>
        simp only [List.length_cons] at hb hb'
        cases hr : rule (t :: tokens) with
        | ok outcome =>
          have hlt := h.length_lt hr
          simp only [List.length_cons] at hlt
          have hlater : readings rule budget outcome.2 = readings rule budget' outcome.2 := by
            apply ih
            · omega
            · omega
          simp only [readings, hr, hlater]
        | error failure =>
          have hle := h.length_le hr
          have hskip := length_afterSemicolon failure.rest
          simp only [List.length_cons] at hle
          have hlater : readings rule budget (afterSemicolon failure.rest) =
              readings rule budget' (afterSemicolon failure.rest) := by
            apply ih
            · omega
            · omega
          simp only [readings, hr, hlater]

/-- All readings of a list. -/
def allReadings (rule : Rule α) (tokens : List Token) : List (Except Failure α) :=
  readings rule tokens tokens

theorem allReadings_nil (rule : Rule α) : allReadings rule [] = [] := rfl

/-- Behind a value the readings go on with what is left. -/
theorem allReadings_of_ok (h : rule.Whole) {tokens rest : List Token} {a : α}
    (hr : rule tokens = .ok (a, rest)) :
    allReadings rule tokens = .ok a :: allReadings rule rest := by
  have hlt := h.length_lt hr
  cases tokens with
  | nil => simp at hlt
  | cons t tokens =>
    simp only [List.length_cons] at hlt
    have hstep : allReadings rule (t :: tokens) = .ok a :: readings rule tokens rest := by
      simp only [allReadings, readings, hr]
    have hlater : readings rule tokens rest = allReadings rule rest :=
      readings_budget h (by omega) (Nat.le_refl _)
    rw [hstep, hlater]

/-- Behind a failure the readings go on behind the next semicolon. -/
theorem allReadings_of_error (h : rule.Whole) {t : Token} {tokens : List Token}
    {failure : Failure} (hr : rule (t :: tokens) = .error failure) :
    allReadings rule (t :: tokens) =
      .error failure :: allReadings rule (afterSemicolon failure.rest) := by
  have hle := h.length_le hr
  have hskip := length_afterSemicolon failure.rest
  simp only [List.length_cons] at hle
  have hstep : allReadings rule (t :: tokens) =
      .error failure :: readings rule tokens (afterSemicolon failure.rest) := by
    simp only [allReadings, readings, hr]
  have hlater : readings rule tokens (afterSemicolon failure.rest) =
      allReadings rule (afterSemicolon failure.rest) := readings_budget h (by omega) (Nat.le_refl _)
  rw [hstep, hlater]

end Budget

/-! ## The results of a session -/

/-- Statements are read by a rule that decides by one token of lookahead. -/
theorem Session.whole_statement : (Rule.statement Session.rules).Whole :=
  Rule.whole_statement (Rules.inner_ofLevels maxDepth)

/-- The statements and the diagnostics of a session, in the order of the tokens. -/
def Session.results (s : Session) : List (Except Diagnostic Statement) :=
  (allReadings (Rule.statement Session.rules) s.rest).map
    (Except.mapError fun failure => failure.diagnostic s.finish)

theorem Session.script_eq_gather (s : Session) : s.script = gather s.results := by
  rw [results, gather_mapError]
  unfold Session.script allReadings
  cases gather (readings (Rule.statement Session.rules) s.rest s.rest) with
  | ok statements => rfl
  | error failures => rfl

/-- A session has only values for results if and only if all its readings are values. -/
theorem Session.results_eq_map_ok {s : Session} {statements : List Statement} :
    s.results = statements.map .ok ↔
      allReadings (Rule.statement Session.rules) s.rest = statements.map .ok := by
  rw [← gather_eq_ok, ← gather_eq_ok, results, gather_mapError]
  cases gather (allReadings (Rule.statement Session.rules) s.rest) with
  | ok values =>
    show (Except.ok values : Except (List Diagnostic) (List Statement)) = .ok statements ↔ _
    simp
  | error failures =>
    show (Except.error _ : Except (List Diagnostic) (List Statement)) = .ok statements ↔ _
    simp

end SqlForest
