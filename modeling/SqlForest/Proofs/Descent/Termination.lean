import SqlForest.Proofs.Descent.History

/-!
# Parsers end within their stream

Nothing in a routine bounds its recursion or its loops, and where there is no token to look at a run
has no outcome.  Yet from every parser that is at work on a stream every routine has one, and leaves
the cursor at a token that is no further back (`Routine.Reaches`).  The tokens need not be such as a
text can have.

A statement that fails may not have read a single token.  The loop of `Routine.statements` still
ends, as the recovery behind such a statement goes past one (`Parser.Within.round`).  So there are
no more statements and diagnostics than tokens (`Parser.Within.rounds`).
-/

namespace SqlForest

open Grammar

namespace Routine

variable {α : Type}

/-- The run of the routine from a parser has an outcome, so there was a token wherever it looked for
one, and leaves the parser at a token of the stream, no further back than it was. -/
def Reaches (s : TokenStream) (p : Parser) (r : Routine α) : Prop :=
  ∃ outcome q, r p = some (outcome, q) ∧ q.Within s ∧ p.current ≤ q.current

/-- How many statements have been read or have failed. -/
def Progress.count (done : Progress) : Nat :=
  done.read.length + done.failed.length

theorem Progress.count_add (done : Progress) (outcome : Except Diagnostic Statement) :
    (done.add outcome).count = done.count + 1 := by
  cases outcome with
  | ok found =>
    simp only [count, add, List.length_cons]
    omega
  | error d =>
    simp only [count, add, List.length_cons]
    omega

end Routine

namespace Parser

open Routine

variable {α : Type} {s : TokenStream} {p : Parser}

/-! ## One routine -/

/-- The cursor moves over tokens of the stream, be the outcome a result or a failure. -/
theorem Within.reaches_of_does (h : p.Within s) {levels : Nat → Prop}
    {outcome : Except Failure (α × List Token)} {r : Routine α} (hr : p.Does levels outcome (r p)) :
    r.Reaches s p := by
  unfold Reaches
  generalize r p = run at hr
  cases hr with
  | reads used log hrest _ _ => exact ⟨_, _, rfl, h.moved used hrest _ log, Nat.le_add_right _ _⟩
  | fails used log hrest _ _ => exact ⟨_, _, rfl, h.moved used hrest _ log, Nat.le_add_right _ _⟩

theorem Within.reaches (h : p.Within s) {levels : Nat → Prop} {r : Routine α} {wide narrow : Rule α}
    (hr : Follows maxDepth p.depth levels r wide narrow) : r.Reaches s p :=
  h.reaches_of_does (hr.agrees p h.atToken h.limit_eq rfl)

/-- The rules of the levels that are left below a level. -/
theorem below_level {level : Nat} (hlevel : level ≤ maxDepth) :
    Below maxDepth level (Rules.ofLevels (maxDepth - level)) (Rules.ofLevels (maxDepth - level)) :=
  below_ofLevels_last (Nat.add_sub_of_le hlevel)

/-- Every routine of the recursion over expressions ends. -/
structure EndsExpressions (s : TokenStream) (p : Parser) : Prop where
  phrase : ∀ goal : Phrase, goal.routine.Reaches s p
  nested : ∀ goal : Phrase, goal.nested.Reaches s p
  chain : ∀ c : Chain, c.routine.Reaches s p
  further : ∀ (c : Chain) (left : Expr), (c.further left).Reaches s p
  tuple : Phrase.expression.tuple.Reaches s p
  items : Phrase.expression.items.Reaches s p
  moreItems : ∀ read : List Expr, (Phrase.expression.moreItems read).Reaches s p

/-- At the last level a nested phrase is refused, and above it there are the rules of the level
below. -/
theorem Within.reaches_nested (h : p.Within s) (hdepth : p.depth ≤ maxDepth) (goal : Phrase) :
    goal.nested.Reaches s p := by
  rcases Nat.lt_or_eq_of_le hdepth with hlt | heq
  · exact h.reaches (follows_nested hlt (below_ofLevels_last (Nat.add_sub_of_le hlt)) goal)
  · have hlast : Follows maxDepth p.depth (· = maxDepth) goal.nested (Rule.fail .nestedTooDeeply)
        (Rule.fail .nestedTooDeeply) := heq ▸ follows_nested_last goal
    exact h.reaches hlast

theorem Within.endsExpressions (h : p.Within s) (hdepth : p.depth ≤ maxDepth) :
    EndsExpressions s p where
  phrase goal := h.reaches (follows_phrase (below_level hdepth) goal)
  nested := h.reaches_nested hdepth
  chain c := by
    have hoperand := follows_phrase (below_level hdepth) c.operand
    exact h.reaches (follows_chain (below_level hdepth) c hoperand)
  further c left := h.reaches (follows_further (below_level hdepth) c left)
  tuple := h.reaches (follows_tuple (below_level hdepth))
  items := h.reaches (follows_expressions (below_level hdepth))
  moreItems read := h.reaches (follows_moreItems (below_level hdepth) read)

theorem Within.reaches_statement (h : p.Within s) : Routine.statement.Reaches s p :=
  h.reaches_of_does (does_statement h.atToken h.limit_eq)

theorem Within.reaches_advance (h : p.Within s) : Routine.advance.Reaches s p := by
  cases hrest : p.rest with
  | nil => exact ⟨_, p, advance_of_nil h.atToken hrest, h, Nat.le_refl _⟩
  | cons t rest =>
    exact ⟨_, _, advance_of_cons hrest, h.moved [t] hrest p.depth [], Nat.le_add_right _ _⟩

theorem Within.reaches_recover (h : p.Within s) : Routine.recover.Reaches s p := by
  obtain ⟨used, hused, hrun⟩ := recover_eq h.atToken
  exact ⟨_, _, hrun, h.moved used hused _ [], Nat.le_add_right _ _⟩

/-! ## The loop over the statements -/

theorem Within.rest_eq_nil (h : p.Within s) : p.rest = [] ↔ p.current = s.tokens.length := by
  rw [h.rest_eq, List.drop_eq_nil_iff]
  exact ⟨fun hle => Nat.le_antisymm h.current_le hle, fun heq => Nat.le_of_eq heq.symm⟩

/-- A round settles one statement and goes past a token at least. -/
theorem Within.round (h : p.Within s) (hcurrent : p.current < s.tokens.length) (done : Progress) :
    ∃ further q, statements.step done p = some (.ok (.inl further), q) ∧ q.Within s ∧
      p.current < q.current ∧ further.count = done.count + 1 := by
  have hne : p.rest ≠ [] := fun hnil => Nat.ne_of_lt hcurrent (h.rest_eq_nil.mp hnil)
  obtain ⟨used, left, reached, log, hused, hsome, hturn⟩ :=
    h.atToken.turn Session.whole_statement hne (does_statement h.atToken h.limit_eq)
  have hwithin := h.moved used hused reached log
  have hless : p.current < (p.moved used.length reached log).current :=
    Nat.lt_add_of_pos_right (List.length_pos_iff.mpr hsome)
  obtain ⟨outcome, hturn⟩ : ∃ outcome,
      p.turn = some (outcome, p.moved used.length reached log) := by
    rcases hturn with ⟨_, -, hturn⟩ | ⟨_, -, -, hturn⟩
    · exact ⟨_, hturn⟩
    · exact ⟨_, hturn⟩
  exact ⟨_, _, statements_step hne hturn done, hwithin, hless, done.count_add outcome⟩

/-- Round after round the loop comes to the end of input, with at most one round for a token. -/
theorem Within.rounds (h : p.Within s) (done : Progress) :
    ∃ found failed q, statements.run done p = some (.ok (found, failed), q) ∧ q.Within s ∧
      q.current = s.tokens.length ∧
      found.length + failed.length ≤ done.count + (s.tokens.length - p.current) := by
  induction hleft : s.tokens.length - p.current using Nat.strongRecOn generalizing p done with
  | ind left ih =>
    subst hleft
    rcases Nat.lt_or_eq_of_le h.current_le with hlt | heq
    · obtain ⟨further, q, hstep, hwithin, hless, hcount⟩ := h.round hlt done
      have hfewer : s.tokens.length - q.current < s.tokens.length - p.current := by omega
      obtain ⟨found, failed, last, hrun, hlast, hend, hbound⟩ := ih _ hfewer hwithin further rfl
      refine ⟨found, failed, last, (Loop.run_of_inl hstep).trans hrun, hlast, hend, ?_⟩
      omega
    · refine ⟨_, _, p, statements_of_nil h.atToken (h.rest_eq_nil.mpr heq) done, h, heq, ?_⟩
      rw [List.length_reverse, List.length_reverse]
      exact Nat.le_add_right _ _

/-- Anywhere in a stream the cursor is at a token.  From there the one routine that moves it, every
rule for expressions, every statement and every recovery end with the cursor at a token that is no
further back.  Every round of the loop over the statements goes past a token, and the loop ends at
the end of input, with no more statements and diagnostics than there were tokens. -/
theorem Within.terminates (h : p.Within s) :
    s.toList[p.current]? = some p.next ∧
    Routine.advance.Reaches s p ∧
    (p.depth ≤ maxDepth → EndsExpressions s p ∧ Routine.identifiers.Reaches s p) ∧
    Routine.statement.Reaches s p ∧
    Routine.recover.Reaches s p ∧
    (p.current < s.tokens.length → ∀ done : Progress, ∃ further q,
      statements.step done p = some (.ok (.inl further), q) ∧ q.Within s ∧
      p.current < q.current ∧ further.count = done.count + 1) ∧
    (∃ found failed q, statements.run ⟨[], []⟩ p = some (.ok (found, failed), q) ∧
      q.current = s.tokens.length ∧
      found.length + failed.length ≤ s.tokens.length - p.current) ∧
    p.script = some (s.drop p.current).script := by
  have hnext : s.toList[p.current]? = some p.next := by
    rw [← h.stream_eq]
    exact h.atToken.next?_eq
  refine ⟨hnext, h.reaches_advance, ?_, h.reaches_statement, h.reaches_recover, h.round, ?_, ?_⟩
  · intro hdepth
    exact ⟨h.endsExpressions hdepth, h.reaches (follows_identifiers hdepth)⟩
  · obtain ⟨found, failed, q, hrun, -, hend, hbound⟩ := h.rounds ⟨[], []⟩
    have hnone : Progress.count ⟨[], []⟩ = 0 := rfl
    rw [hnone, Nat.zero_add] at hbound
    exact ⟨found, failed, q, hrun, hend, hbound⟩
  · rw [Parser.script_eq h.atToken h.limit_eq, h.session_eq]
    rfl

end Parser

/-- Tokens that no text has, behind a semicolon that no statement ends with. -/
def TokenStream.strays : TokenStream where
  tokens := [⟨.semicolon, ";", ⟨"q", 1, 1⟩⟩, ⟨.number, "1x", ⟨"q", 7, 1⟩⟩,
    ⟨.keyword, "nope", ⟨"q", 2, 0⟩⟩]
  finish := ⟨.endOfInput, "", ⟨"q", 1, 1⟩⟩
  kind_ne_endOfInput := by decide
  finish_kind := rfl

theorem Parser.terminates_of_strays :
    ∃ found failed q,
      Routine.statements.run ⟨[], []⟩ (ofStream .strays) = some (.ok (found, failed), q) ∧
      q.current = 3 ∧ found.length + failed.length ≤ 3 := by
  obtain ⟨-, -, -, -, -, -, hrun, -⟩ := (within_ofStream .strays).terminates
  exact hrun

end SqlForest
