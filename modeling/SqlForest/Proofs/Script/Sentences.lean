import SqlForest.Proofs.Grammar.Completeness
import SqlForest.Proofs.Script.Readings

/-!
# A script is read exactly when it derives

`Rule.statement` reads a sentence and nothing else (`statement_eq_ok`).  From there the readings of
a list are all values if and only if the list is sentences, one behind the other, and the values are
what they denote.
-/

namespace SqlForest

open Grammar

theorem Session.leads_statement :
    Rule.Leads (Sentence maxDepth) (Rule.statement Session.rules) :=
  Grammar.leads_statement (by decide)

/-- What is read of a list is a sentence at its beginning. -/
theorem statement_eq_ok {tokens rest : List Token} {statement : Statement} :
    Rule.statement Session.rules tokens = .ok (statement, rest) ↔
      ∃ used, tokens = used ++ rest ∧ Sentence maxDepth used statement := by
  constructor
  · intro h
    exact Session.leads_statement.reads tokens statement rest h
  · rintro ⟨used, rfl, h⟩
    exact h.read rest

/-- A list that is read without a failure is sentences, and each value is what its sentence
denotes. -/
theorem sentences_of_allReadings {tokens : List Token} {statements : List Statement}
    (h : allReadings (Rule.statement Session.rules) tokens = statements.map .ok) :
    Sentences maxDepth tokens statements := by
  induction statements generalizing tokens with
  | nil =>
    cases tokens with
    | nil => exact .nil
    | cons t tokens =>
      cases hr : Rule.statement Session.rules (t :: tokens) with
      | ok outcome =>
        rw [allReadings_of_ok Session.whole_statement hr] at h
        simp at h
      | error failure =>
        rw [allReadings_of_error Session.whole_statement hr] at h
        simp at h
  | cons statement statements ih =>
    cases tokens with
    | nil =>
      rw [allReadings_nil] at h
      simp at h
    | cons t tokens =>
      cases hr : Rule.statement Session.rules (t :: tokens) with
      | ok outcome =>
        obtain ⟨first, rest⟩ := outcome
        rw [allReadings_of_ok Session.whole_statement hr] at h
        simp only [List.map_cons, List.cons.injEq, Except.ok.injEq] at h
        obtain ⟨rfl, hlater⟩ := h
        obtain ⟨used, hused, hfirst⟩ := statement_eq_ok.mp hr
        rw [hused]
        exact .cons hfirst (ih hlater)
      | error failure =>
        rw [allReadings_of_error Session.whole_statement hr] at h
        simp at h

/-- Sentences are read one after the other. -/
theorem allReadings_of_sentences {tokens : List Token} {statements : List Statement}
    (h : Sentences maxDepth tokens statements) :
    allReadings (Rule.statement Session.rules) tokens = statements.map .ok := by
  induction h with
  | nil => rfl
  | cons first _ ih =>
    have hr := first.read
    rw [allReadings_of_ok Session.whole_statement (hr _), ih]
    rfl

/-- A stream is read into exactly the statements that its tokens derive. -/
theorem TokenStream.script_iff_sentences (s : TokenStream) (statements : List Statement) :
    s.script = .ok statements ↔ Sentences maxDepth s.tokens statements := by
  have hscript : s.script = gather (Session.ofStream s).results :=
    Session.script_eq_gather (Session.ofStream s)
  rw [hscript, gather_eq_ok, Session.results_eq_map_ok]
  constructor
  · intro h
    exact sentences_of_allReadings h
  · intro h
    exact allReadings_of_sentences h

end SqlForest
