import SqlForest.Proofs.Descent.Statements
import SqlForest.Proofs.Script.Segments

/-!
# Scripts by descent

Behind a failed statement `Routine.recover` goes past the next semicolon, so that a turn of the loop
goes past a token at least, be the statement read or skipped (`Parser.AtToken.turn`).  The loop
collects what comes of turn after turn (`Parser.run_of_results`).  Under the limit of the program
these are the results of a session with the same tokens left (`Parser.results_eq_session`).  So a
script that is read by descent is the script of that session (`Parser.script_eq`), and in particular
its run ends.
-/

namespace SqlForest

/-- The session with the tokens that a parser has left. -/
def Parser.session (p : Parser) : Session :=
  ⟨p.rest, p.stream.finish⟩

theorem Parser.session_moved {p : Parser} (used : List Token) {rest : List Token}
    (h : p.rest = used ++ rest) (level : Nat) (log : List Entry) :
    (p.moved used.length level log).session = ⟨rest, p.stream.finish⟩ := by
  rw [session, rest_moved used h]
  rfl

/-! ## Recovery -/

namespace Routine

theorem recover_of_nil {p : Parser} (hat : p.AtToken) (h : p.rest = []) :
    recover p = some (.ok (), p) := by
  refine Loop.run_of_inr ?_
  show (peek >>= _) p = _
  rw [peek_bind hat, if_pos (Parser.next_of_nil h).2]
  rfl

theorem recover_of_cons {p : Parser} {t : Token} {rest : List Token} (h : p.rest = t :: rest) :
    recover p =
      if t.kind = .semicolon then some (.ok (), p.moved 1 p.depth [])
      else recover (p.moved 1 p.depth []) := by
  obtain ⟨hnext, hkind⟩ := Parser.next_of_cons h
  have hstep : recovery.step () p =
      (if t.kind = .semicolon then pure (.inr ()) else pure (.inl ()) : Routine _)
        (p.moved 1 p.depth []) := by
    show (peek >>= _) p = _
    rw [peek_bind (Parser.atToken_of_cons h), hnext, if_neg hkind, advance_bind h]
  by_cases ht : t.kind = .semicolon
  · rw [if_pos ht] at hstep ⊢
    exact Loop.run_of_inr hstep
  · rw [if_neg ht] at hstep ⊢
    exact Loop.run_of_inl hstep

/-- What is left behind a recovery stands behind the next semicolon. -/
theorem recover_eq {p : Parser} (hat : p.AtToken) :
    ∃ used, p.rest = used ++ afterSemicolon p.rest ∧
      recover p = some (.ok (), p.moved used.length p.depth []) := by
  induction hrest : p.rest generalizing p with
  | nil => exact ⟨[], rfl, recover_of_nil hat hrest⟩
  | cons t rest ih =>
    rw [recover_of_cons hrest, afterSemicolon]
    by_cases ht : t.kind = .semicolon
    · rw [if_pos ht, if_pos ht]
      exact ⟨[t], rfl, rfl⟩
    · rw [if_neg ht, if_neg ht]
      obtain ⟨used, hused, hrecover⟩ :=
        ih (hat.moved [t] hrest p.depth []) (Parser.rest_past hrest p.depth [])
      refine ⟨t :: used, congrArg (t :: ·) hused, ?_⟩
      rwa [p.moved_moved [t] used] at hrecover

end Routine

/-! ## Turns -/

namespace Parser

variable {p q : Parser}

theorem turn_of_ok {found : Statement} (h : p.statement = some (.ok found, q)) :
    p.turn = some (.ok found, q) := by
  simp only [turn, h]

theorem turn_of_error {d : Diagnostic} {r : Parser} (h : p.statement = some (.error d, q))
    (hrecover : Routine.recover q = some (.ok (), r)) : p.turn = some (.error d, r) := by
  simp only [turn, h, hrecover]

/-- A turn goes past a token at least, be the statement read or skipped. -/
theorem AtToken.turn {rule : Rule Statement} (hwhole : rule.Whole) (hat : p.AtToken)
    (hne : p.rest ≠ []) (hdoes : p.Does (· = 0) (rule p.rest) p.statement) :
    ∃ used left reached log, p.rest = used ++ left ∧ used ≠ [] ∧
      ((∃ found, rule p.rest = .ok (found, left) ∧
          p.turn = some (.ok found, p.moved used.length reached log)) ∨
        ∃ failure, rule p.rest = .error failure ∧ left = afterSemicolon failure.rest ∧
          p.turn = some (.error (failure.diagnostic p.stream.finish),
            p.moved used.length reached log)) := by
  have hpos := List.length_pos_iff.mpr hne
  generalize hrule : rule p.rest = outcome, hrun : p.statement = run at hdoes
  cases hdoes with
  | @reads used log left found reached hused _ _ =>
    have hless : left.length < p.rest.length := hwhole.length_lt hrule
    refine ⟨used, left, reached, log, hused, ?_, .inl ⟨found, rfl, turn_of_ok hrun⟩⟩
    rintro rfl
    rw [hused] at hless
    exact Nat.lt_irrefl _ hless
  | @fails used log failure reached hused _ _ =>
    obtain ⟨skipped, hskipped, hrecover⟩ := Routine.recover_eq (hat.moved used hused reached log)
    rw [rest_moved used hused] at hskipped
    rw [moved_moved] at hrecover
    have hall : p.rest = (used ++ skipped) ++ afterSemicolon failure.rest := by
      rw [List.append_assoc, ← hskipped, hused]
    refine ⟨used ++ skipped, _, reached, _, hall, ?_,
      .inr ⟨failure, rfl, rfl, turn_of_error hrun hrecover⟩⟩
    intro hnil
    have hskip := length_afterSemicolon failure.rest
    have hle : failure.rest.length ≤ p.rest.length := hwhole.length_le hrule
    rw [hnil] at hall
    have hlength := congrArg List.length hall
    rw [List.nil_append] at hlength
    omega

end Parser

/-! ## Scripts -/

namespace Routine

theorem attempt_apply {α : Type} (r : Routine α) (p : Parser) :
    (tryCatch (Except.ok <$> r) fun d => pure (.error d) : Routine (Except Diagnostic α)) p =
      (r p).map fun run => (.ok run.1, run.2) := by
  show ((r p).bind _).bind _ = (r p).map _
  rcases r p with _ | ⟨_ | _, q⟩ <;> rfl

/-- What has been read and what has failed once there is one more outcome. -/
def Progress.add (done : Progress) : Except Diagnostic Statement → Progress
  | .ok found => { done with read := found :: done.read }
  | .error d => { done with failed := d :: done.failed }

theorem statements_of_nil {p : Parser} (hat : p.AtToken) (h : p.rest = []) (done : Progress) :
    statements.run done p = some (.ok (done.read.reverse, done.failed.reverse), p) := by
  refine Loop.run_of_inr ?_
  show (peek >>= _) p = _
  rw [peek_bind hat, if_pos (Parser.next_of_nil h).2]
  rfl

/-- In front of a token the loop takes a turn. -/
theorem statements_step {p q : Parser} {outcome : Except Diagnostic Statement} (hne : p.rest ≠ [])
    (hturn : p.turn = some (outcome, q)) (done : Progress) :
    statements.step done p = some (.ok (.inl (done.add outcome)), q) := by
  obtain ⟨hat, hkind⟩ := Parser.atToken_of_ne hne
  show (peek >>= _) p = _
  rw [peek_bind hat, if_neg hkind, bind_apply, attempt_apply]
  unfold Parser.turn Parser.statement at hturn
  rcases hrun : statement p with _ | ⟨d | found, u⟩
  · simp [hrun] at hturn
  · rcases hrecover : recover u with _ | ⟨_ | _, r⟩
    · simp [hrun, hrecover] at hturn
    · simp [hrun, hrecover] at hturn
    · simp only [hrun, hrecover, Option.some.injEq, Prod.mk.injEq] at hturn
      obtain ⟨rfl, rfl⟩ := hturn
      show (recover >>= fun _ => _) u = _
      rw [bind_apply, hrecover]
      rfl
  · simp only [hrun, Option.some.injEq, Prod.mk.injEq] at hturn
    obtain ⟨rfl, rfl⟩ := hturn
    rfl

end Routine

namespace Parser

variable {p q : Parser}

theorem results_of_nil (hat : p.AtToken) (h : p.rest = []) : p.results = some [] := by
  rw [results.eq_def, hat.next?_eq]
  exact if_pos (next_of_nil h).2

/-- In front of a token the results begin with that of a turn. -/
theorem results_of_ne (hne : p.rest ≠ []) :
    p.results = p.turn.bind fun run => run.2.results.map (run.1 :: ·) := by
  obtain ⟨hat, hkind⟩ := atToken_of_ne hne
  conv =>
    lhs
    rw [results.eq_def, hat.next?_eq]
  refine (if_neg hkind).trans ?_
  show p.turn.bind (fun run => run.2.results.bind fun later => some (run.1 :: later)) = _
  simp only [Option.map_eq_bind, Function.comp_def]

/-- Where there are results there is a token. -/
theorem atToken_of_results {outcomes : List (Except Diagnostic Statement)}
    (h : p.results = some outcomes) : p.AtToken := by
  refine Nat.le_of_not_lt fun hlt => ?_
  have hnone : p.next? = none := by
    refine List.getElem?_eq_none ?_
    rw [TokenStream.toList, List.length_append]
    exact hlt
  rw [results.eq_def, hnone] at h
  cases h

theorem results_cases {outcomes : List (Except Diagnostic Statement)}
    (h : p.results = some outcomes) :
    p.rest = [] ∧ outcomes = [] ∨ p.rest ≠ [] ∧ ∃ outcome q later,
      p.turn = some (outcome, q) ∧ q.results = some later ∧ outcomes = outcome :: later := by
  by_cases hnil : p.rest = []
  · rw [results_of_nil (atToken_of_results h) hnil] at h
    exact .inl ⟨hnil, (Option.some.inj h).symm⟩
  · rw [results_of_ne hnil] at h
    obtain ⟨⟨outcome, q⟩, hturn, hq⟩ := Option.bind_eq_some_iff.mp h
    obtain ⟨later, hlater, rfl⟩ := Option.map_eq_some_iff.mp hq
    exact .inr ⟨hnil, outcome, q, later, hturn, hlater, rfl⟩

/-- The loop over the statements collects the results. -/
theorem run_of_results {outcomes : List (Except Diagnostic Statement)}
    (h : p.results = some outcomes) (done : Routine.Progress) :
    ∃ q, Routine.statements.run done p =
      some (.ok (done.read.reverse ++ outcomes.filterMap Except.toOption,
        done.failed.reverse ++ outcomes.filterMap errorOf?), q) := by
  induction outcomes generalizing p done with
  | nil =>
    obtain ⟨hnil, -⟩ | ⟨-, _, _, _, -, -, hcons⟩ := results_cases h
    · rw [Routine.statements_of_nil (atToken_of_results h) hnil]
      exact ⟨p, by simp⟩
    · cases hcons
  | cons outcome outcomes ih =>
    obtain ⟨-, hnil⟩ | ⟨hne, _, q, _, hturn, hlater, hcons⟩ := results_cases h
    · cases hnil
    · cases hcons
      obtain ⟨last, hlast⟩ := ih hlater (done.add outcome)
      refine ⟨last, ?_⟩
      rw [Routine.Loop.run_of_inl (Routine.statements_step hne hturn done), hlast]
      cases outcome with
      | ok found =>
        simp only [Routine.Progress.add, List.reverse_cons, List.append_assoc]
        rfl
      | error d =>
        simp only [Routine.Progress.add, List.reverse_cons, List.append_assoc]
        rfl

/-- A script is made of the results. -/
theorem script_of_results {outcomes : List (Except Diagnostic Statement)}
    (h : p.results = some outcomes) : p.script = some (gather outcomes) := by
  obtain ⟨q, hq⟩ := run_of_results h ⟨[], []⟩
  rw [script, hq, gather_eq]
  simp only [List.reverse_nil, List.nil_append]
  cases outcomes.filterMap errorOf? with
  | nil => rfl
  | cons d failed => rfl

/-- Where every statement does what a rule does, the results are those of the rule. -/
theorem AtToken.results_eq {rule : Rule Statement} (hwhole : rule.Whole) (hat : p.AtToken)
    (hdoes : ∀ q : Parser, q.AtToken → q.limit = p.limit → q.rest.length ≤ p.rest.length →
      q.Does (· = 0) (rule q.rest) q.statement) :
    p.results = some (rule.reports p.stream.finish p.rest) := by
  induction hlength : p.rest.length using Nat.strongRecOn generalizing p with
  | ind n ih =>
    subst hlength
    by_cases hnil : p.rest = []
    · rw [results_of_nil hat hnil, hnil]
      rfl
    · obtain ⟨used, left, reached, log, hused, hne, hturn⟩ :=
        hat.turn hwhole hnil (hdoes p hat rfl (Nat.le_refl _))
      have hleft := rest_moved used hused reached log
      have hless : (p.moved used.length reached log).rest.length < p.rest.length := by
        have hpos := List.length_pos_iff.mpr hne
        rw [hleft, hused, List.length_append]
        omega
      have hlater := ih _ hless (hat.moved used hused reached log)
        (fun q hq hlimit hle => hdoes q hq hlimit (Nat.le_trans hle (Nat.le_of_lt hless))) rfl
      rw [hleft] at hlater
      rcases hturn with ⟨found, hrule, hturn⟩ | ⟨failure, hrule, rfl, hturn⟩
      · rw [results_of_ne hnil, hturn, Option.bind_some, hlater, hwhole.reports_of_ok hrule]
        rfl
      · rw [results_of_ne hnil, hturn, Option.bind_some, hlater, hwhole.reports_of_error hnil hrule]
        rfl

/-- The results of a parser are those of the session with the same tokens left. -/
theorem results_eq_session (hat : p.AtToken) (hlimit : p.limit = some maxDepth) :
    p.results = some p.session.results :=
  hat.results_eq Session.whole_statement fun _ hq hsame _ =>
    Routine.does_statement hq (hsame.trans hlimit)

/-- The script that a parser reads is that of the session with the same tokens left. -/
theorem script_eq (hat : p.AtToken) (h : p.limit = some maxDepth) :
    p.script = some p.session.script := by
  rw [script_of_results (results_eq_session hat h), Session.script_eq_gather]

end Parser

end SqlForest
