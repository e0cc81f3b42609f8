import SqlForest.Proofs.Descent.Script
import SqlForest.Proofs.Grammar.Spending

/-!
# The guard only refuses

A statement is read under the limit and without one.  Either both runs are the same
(`Parser.Same`), or the one under the limit ends where the other enters the first level beyond it
(`Parser.Cut`).  `TokenStream.guard_only_refuses` says so of every segment of a stream.  The results
of a whole stream are those of its segments with either kind of parser
(`TokenStream.resultsUnder_eq`), since a parser without a limit decides by one token of lookahead as
well.
-/

namespace SqlForest

open Grammar

/-! ## One statement -/

namespace Parser

variable {α : Type} {limit : Nat} {p : Parser} {levels : Nat → Prop}
  {guarded free : Except Diagnostic α × Parser}

/-- Both runs have the same outcome and leave the same parser but for the limit, and no level beyond
the limit has been entered. -/
structure Same (limit : Nat) (guarded free : Except Diagnostic α × Parser) : Prop where
  eq : free = (guarded.1, guarded.2.under none)
  level_le : ∀ x ∈ free.2.entered, x.level ≤ limit
  fault_ne : ∀ d found, guarded.1 = .error d → d.fault ≠ .syntactic .nestedTooDeeply found

/-- The run `guarded` from the parser ends where the run `free` enters the first level beyond the
limit. -/
structure Cut (limit : Nat) (p : Parser) (guarded free : Except Diagnostic α × Parser) (e : Entry) :
    Prop where
  refused : ∃ t, p.stream.toList[e.current]? = some t ∧
    guarded.1 = .error ⟨t.position, .syntactic .nestedTooDeeply t.quoted⟩
  current_eq : guarded.2.current = e.current
  entered_eq : ∃ later, free.2.entered = later ++ e :: guarded.2.entered
  level_le : ∀ x ∈ guarded.2.entered, x.level ≤ limit
  limit_lt : limit < e.level
  current_le : e.current ≤ free.2.current

theorem level_le_of_new {log : List Entry} (hnew : p.entered = [])
    (hlog : ∀ e ∈ log, (p.under (some limit)).Allows e.level) :
    ∀ x ∈ log ++ p.entered, x.level ≤ limit := by
  rw [hnew, List.append_nil]
  exact fun x hx => p.allows_under.mp (hlog x hx)

/-- Runs that are together are the same, and where they part one of them is cut. -/
theorem same_or_cut {wide narrow : Except Failure (α × List Token)}
    {free guarded : Option (Except Diagnostic α × Parser)} (hat : p.AtToken) (hnew : p.entered = [])
    (henough : ∀ rest, wide ≠ .error ⟨rest, .nestedTooDeeply⟩)
    (h : Lockstep limit p levels wide narrow free guarded) :
    ∃ g f, guarded = some g ∧ free = some f ∧ (Same limit g f ∨ ∃ e, Cut limit p g f e) := by
  cases h with
  | together hdoes =>
    refine ⟨_, _, rfl, rfl, .inl ?_⟩
    cases hdoes with
    | reads used log hrest _ hlog => exact ⟨rfl, level_le_of_new hnew hlog, nofun⟩
    | @fails used log failure _ hrest _ hlog =>
      refine ⟨rfl, level_le_of_new hnew hlog, ?_⟩
      intro d found hd hfault
      obtain ⟨rest, fault⟩ := failure
      cases hd
      cases hfault
      exact henough rest rfl
  | @parts _ _ _ q level hdoes hlevel hfree =>
    obtain ⟨run, log, rfl, hentered, hcurrent⟩ : ∃ run log, free = some run ∧
        run.2.entered = log ++ (q.enter level).entered ∧ q.current ≤ run.2.current := by
      cases hfree with
      | reads us more _ _ _ => exact ⟨_, more, rfl, rfl, Nat.le_add_right _ _⟩
      | fails us more _ _ _ => exact ⟨_, more, rfl, rfl, Nat.le_add_right _ _⟩
    refine ⟨_, run, rfl, rfl, .inr ⟨⟨level, q.current⟩, ?_⟩⟩
    cases hdoes with
    | @fails used log _ reached hrest _ hlog =>
      have hlast : ((p.under (some limit)).moved used.length reached log).AtToken :=
        hat.moved used hrest reached log
      exact
        { refused := ⟨_, hlast.next?_eq, congrArg Except.error (diagnostic_eq _ _).symm⟩
          current_eq := rfl
          entered_eq := ⟨_, hentered⟩
          level_le := level_le_of_new hnew hlog
          limit_lt := hlevel
          current_le := hcurrent }
  | spent _ => exact absurd rfl (henough _)

end Parser

/-! ## Statement after statement -/

/-- What comes of a statement is what a rule makes of the tokens that are left. -/
theorem Parser.Does.reported {p : Parser} {levels : Nat → Prop} {rule : Rule Statement}
    (h : p.Does levels (rule p.rest) p.statement) :
    p.statement.map Prod.fst = some (rule.reported p.stream.finish p.rest) := by
  generalize hrule : rule p.rest = outcome, p.statement = run at h
  cases h with
  | reads used log _ _ _ =>
    rw [Rule.reported_of_ok hrule]
    rfl
  | fails used log _ _ _ =>
    rw [Rule.reported_of_error hrule]
    rfl

namespace Routine

/-- Under a limit or without one, statements of so many tokens do what a rule does. -/
theorem exists_rule (limit : Option Nat) (count : Nat) :
    ∃ rule : Rule Statement, rule.Whole ∧ ∀ p : Parser, p.AtToken → p.limit = limit →
      p.rest.length ≤ count → p.Does (· = 0) (rule p.rest) p.statement := by
  have hwhole : ∀ levels, (Rule.statement (Rules.ofLevels levels)).Whole :=
    fun levels => Rule.whole_statement (Rules.inner_ofLevels levels)
  cases limit with
  | some limit =>
    refine ⟨_, hwhole limit, ?_⟩
    intro p hat hlimit _
    exact (follows_statement (below_ofLevels_last (Nat.zero_add limit))).agrees p hat hlimit rfl
  | none =>
    refine ⟨_, hwhole (0 + (count + 1)), ?_⟩
    intro p hat hlimit hcount
    have hp : p.under none = p := by
      rw [← hlimit]
      rfl
    have hmore : p.rest.length < 0 + (count + 1) := by omega
    have hbelow : Below 0 0 (Rules.ofLevels (0 + (count + 1))) (Rules.ofLevels 0) :=
      below_ofLevels (Nat.zero_add 0)
    rcases (follows_statement hbelow p hat rfl).free_does with hdoes | ⟨rest, hspent⟩
    · rwa [hp] at hdoes
    · exact absurd hspent (Rule.statement_enough hmore rest)

end Routine

/-! ## Streams -/

theorem mapM_eq_some {α β : Type} {f : α → Option β} {g : α → β} {as : List α}
    (h : ∀ a ∈ as, f a = some (g a)) : as.mapM f = some (as.map g) := by
  induction as with
  | nil => rfl
  | cons a as ih =>
    rw [List.mapM_cons, h a List.mem_cons_self, ih fun b hb => h b (List.mem_cons_of_mem a hb)]
    rfl

namespace TokenStream

/-- What a stream is read into if it is one statement, under a limit or without one. -/
def outcomeUnder (limit : Option Nat) (s : TokenStream) : Option (Except Diagnostic Statement) :=
  ((Parser.ofStream s).under limit).statement.map Prod.fst

/-- The results of a stream, statement after statement, under a limit or without one. -/
def resultsUnder (limit : Option Nat) (s : TokenStream) :
    Option (List (Except Diagnostic Statement)) :=
  ((Parser.ofStream s).under limit).results

theorem outcomeUnder_eq {rule : Rule Statement} {limit : Option Nat} (s : TokenStream)
    (hdoes : ∀ p : Parser, p.AtToken → p.limit = limit → p.rest.length ≤ s.tokens.length →
      p.Does (· = 0) (rule p.rest) p.statement) :
    s.outcomeUnder limit = some (rule.reported s.finish s.tokens) := by
  have hrun := hdoes ((Parser.ofStream s).under limit) (Nat.zero_le _) rfl (Nat.le_refl _)
  exact hrun.reported

theorem resultsUnder_eq_reports {rule : Rule Statement} {limit : Option Nat} (s : TokenStream)
    (hwhole : rule.Whole)
    (hdoes : ∀ p : Parser, p.AtToken → p.limit = limit → p.rest.length ≤ s.tokens.length →
      p.Does (· = 0) (rule p.rest) p.statement) :
    s.resultsUnder limit = some (rule.reports s.finish s.tokens) :=
  Parser.AtToken.results_eq (p := (Parser.ofStream s).under limit) hwhole (Nat.zero_le _) hdoes

/-- The results of a stream are those of its segments, under a limit and without one. -/
theorem resultsUnder_eq (limit : Option Nat) (s : TokenStream) :
    s.resultsUnder limit = s.segments.mapM (outcomeUnder limit) := by
  obtain ⟨rule, hwhole, hdoes⟩ := Routine.exists_rule limit s.tokens.length
  have hpiece : ∀ piece ∈ s.segments,
      piece.outcomeUnder limit = some (rule.reported s.finish piece.tokens) := by
    intro piece hpiece
    obtain ⟨hmem, hfinish⟩ := mem_segments hpiece
    rw [← hfinish]
    refine outcomeUnder_eq piece fun p hat hlimit hle => hdoes p hat hlimit (Nat.le_trans hle ?_)
    exact length_le_of_mem_segments hmem
  rw [resultsUnder_eq_reports s hwhole hdoes, mapM_eq_some hpiece, hwhole.reports_eq_segments,
    map_segments]

/-- A script is made of the results, under a limit and without one. -/
theorem script_under (limit : Option Nat) (s : TokenStream) :
    ((Parser.ofStream s).under limit).script = (s.resultsUnder limit).map gather := by
  obtain ⟨rule, hwhole, hdoes⟩ := Routine.exists_rule limit s.tokens.length
  have hresults := resultsUnder_eq_reports s hwhole hdoes
  rw [hresults]
  exact Parser.script_of_results hresults

/-- Under the limit of the program a stream has the outcome that it has as a session. -/
theorem outcomeUnder_maxDepth (s : TokenStream) :
    s.outcomeUnder (some maxDepth) = some s.outcome := by
  rw [outcome, Session.outcome_eq_reported]
  exact outcomeUnder_eq s fun p hat hlimit _ => Routine.does_statement hat hlimit

theorem resultsUnder_maxDepth (s : TokenStream) :
    s.resultsUnder (some maxDepth) = some (s.segments.map outcome) := by
  rw [resultsUnder_eq]
  exact mapM_eq_some fun piece _ => outcomeUnder_maxDepth piece

/-- The runs on a stream under the limit and without one. -/
theorem exists_same_or_cut (s : TokenStream) :
    ∃ guarded free, (Parser.ofStream s).statement = some guarded ∧ guarded.1 = s.outcome ∧
      ((Parser.ofStream s).under none).statement = some free ∧
      (Parser.Same maxDepth guarded free ∨
        ∃ e, Parser.Cut maxDepth (Parser.ofStream s) guarded free e) := by
  have hmore : s.tokens.length < maxDepth + (s.tokens.length + 1) := by omega
  have hbelow : Routine.Below maxDepth 0 (Rules.ofLevels (maxDepth + (s.tokens.length + 1)))
      Session.rules := Routine.below_ofLevels (Nat.zero_add maxDepth)
  have hrun := Routine.follows_statement hbelow (Parser.ofStream s) (Nat.zero_le _) rfl
  obtain ⟨guarded, free, hguarded, hfree, hcases⟩ :=
    Parser.same_or_cut (Nat.zero_le _) rfl (Rule.statement_enough hmore) hrun
  have houtcome : ((Parser.ofStream s).statement).map Prod.fst = some s.outcome :=
    outcomeUnder_maxDepth s
  have hstatement : (Parser.ofStream s).statement = some guarded := hguarded
  rw [hstatement] at houtcome
  exact ⟨guarded, free, hguarded, Option.some.inj houtcome, hfree, hcases⟩

/-- The guard against deep nesting only refuses.  Under the limit a stream is read as ever.  Without
a limit its results are those of its segments, and every segment has one: where nothing is nested
too deeply no level beyond the limit is entered, and where none is entered without the limit both
runs are the same; and where the run under the limit reports a level too deep, the run without it
has come to the same token by way of the same levels, enters there the first level beyond the limit,
and has not failed before. -/
theorem guard_only_refuses (s : TokenStream) :
    s.script = gather (s.segments.map outcome) ∧
    s.resultsUnder (some maxDepth) = some (s.segments.map outcome) ∧
    s.resultsUnder none = s.segments.mapM (outcomeUnder none) ∧
    ((Parser.ofStream s).under none).script = (s.resultsUnder none).map gather ∧
    ∀ piece ∈ s.segments, ∃ guarded free : Except Diagnostic Statement × Parser,
      (Parser.ofStream piece).statement = some guarded ∧
      guarded.1 = piece.outcome ∧
      ((Parser.ofStream piece).under none).statement = some free ∧
      ((∀ d found, piece.outcome = .error d → d.fault ≠ .syntactic .nestedTooDeeply found) →
        free = (guarded.1, guarded.2.under none) ∧ ∀ e ∈ free.2.entered, e.level ≤ maxDepth) ∧
      (∀ d found, piece.outcome = .error d → d.fault = .syntactic .nestedTooDeeply found →
        ∃ t e later, piece.toList[e.current]? = some t ∧
          d = ⟨t.position, .syntactic .nestedTooDeeply t.quoted⟩ ∧
          guarded.2.current = e.current ∧
          free.2.entered = later ++ e :: guarded.2.entered ∧
          (∀ x ∈ guarded.2.entered, x.level ≤ maxDepth) ∧ maxDepth < e.level ∧
          e.current ≤ free.2.current) ∧
      ((∀ e ∈ free.2.entered, e.level ≤ maxDepth) →
        free = (guarded.1, guarded.2.under none)) := by
  refine ⟨script_eq_gather s, resultsUnder_maxDepth s, resultsUnder_eq none s, script_under none s,
    ?_⟩
  intro piece _
  obtain ⟨guarded, free, hguarded, houtcome, hfree, hcases⟩ := exists_same_or_cut piece
  refine ⟨guarded, free, hguarded, houtcome, hfree, ?_, ?_, ?_⟩
  · intro hfault
    rcases hcases with hsame | ⟨e, hcut⟩
    · exact ⟨hsame.eq, hsame.level_le⟩
    · obtain ⟨t, -, hrefused⟩ := hcut.refused
      exact absurd rfl (hfault _ _ (houtcome.symm.trans hrefused))
  · intro d found hd hfault
    rw [← houtcome] at hd
    rcases hcases with hsame | ⟨e, hcut⟩
    · exact absurd hfault (hsame.fault_ne d found hd)
    · obtain ⟨t, ht, hrefused⟩ := hcut.refused
      obtain ⟨later, hlater⟩ := hcut.entered_eq
      exact ⟨t, e, later, ht, Except.error.inj (hd.symm.trans hrefused), hcut.current_eq, hlater,
        hcut.level_le, hcut.limit_lt, hcut.current_le⟩
  · intro hlevels
    rcases hcases with hsame | ⟨e, hcut⟩
    · exact hsame.eq
    · obtain ⟨later, hlater⟩ := hcut.entered_eq
      have hmem : e ∈ free.2.entered := by
        rw [hlater]
        exact List.mem_append_right _ List.mem_cons_self
      exact absurd (hlevels e hmem) (Nat.not_le_of_lt hcut.limit_lt)

end TokenStream

end SqlForest
