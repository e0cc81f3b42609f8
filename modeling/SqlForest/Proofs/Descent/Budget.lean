import SqlForest.Proofs.Descent.Termination
import SqlForest.Proofs.Grammar.Completeness
import SqlForest.Proofs.Grammar.Levels

/-!
# What an expression costs

A routine for a part of an expression that is asked at some level does what a rule does that has so
many levels as there are below it (`Routine.Leveled`).  So a part that has been read leaves the
level as it was, with the cursor behind at least one token, and could have been read with more
levels to go (`Parser.Budgeted`).
-/

namespace SqlForest

open Grammar

variable {α β : Type}

/-! ## Every part takes a token -/

namespace Grammar

variable {limit : Nat}

mutual

theorem Derives.tokens_ne_nil {p : Phrase} {level : Nat} {ts : List Token} {e : Expr} :
    Derives limit p level ts e → ts ≠ []
  | .expression _ chain => chain.tokens_ne_nil
  | .disjunct chain => chain.tokens_ne_nil
  | .negation _ _ _ => List.cons_ne_nil _ _
  | .conjunct check => check.tokens_ne_nil
  | .isNull _ _ _ => List.append_ne_nil_of_right_ne_nil _ (List.cons_ne_nil _ _)
  | .isNotNull _ _ _ _ => List.append_ne_nil_of_right_ne_nil _ (List.cons_ne_nil _ _)
  | .nullCheck operand => operand.tokens_ne_nil
  | .comparison chain => chain.tokens_ne_nil
  | .comparable chain => chain.tokens_ne_nil
  | .product _ _ _ _ => List.append_ne_nil_of_right_ne_nil _ (List.cons_ne_nil _ _)
  | .term factor => factor.tokens_ne_nil
  | .name _ => List.cons_ne_nil _ _
  | .emptyCall _ _ _ => List.cons_ne_nil _ _
  | .call _ _ _ _ => List.cons_ne_nil _ _
  | .parentheses _ _ _ => List.cons_ne_nil _ _
  | .sign _ _ _ _ => List.cons_ne_nil _ _
  | .number _ _ => List.cons_ne_nil _ _
  | .string _ => List.cons_ne_nil _ _

theorem Chained.tokens_ne_nil {c : Chain} {level further : Nat} {ts : List Token} {e : Expr} :
    Chained limit c level further ts e → ts ≠ []
  | .first operand => operand.tokens_ne_nil
  | .further _ _ _ _ => List.append_ne_nil_of_right_ne_nil _ (List.cons_ne_nil _ _)

end

theorem Items.tokens_ne_nil {level : Nat} {ts : List Token} {es : List Expr}
    (h : Items limit level ts es) : ts ≠ [] := by
  cases h with
  | one item => exact item.tokens_ne_nil
  | more _ _ _ => exact List.append_ne_nil_of_right_ne_nil _ (List.cons_ne_nil _ _)

theorem Tuple.tokens_ne_nil {level : Nat} {ts : List Token} {es : List Expr}
    (h : Tuple limit level ts es) : ts ≠ [] := by
  cases h with
  | empty _ _ => exact List.cons_ne_nil _ _
  | items _ _ _ => exact List.cons_ne_nil _ _

end Grammar

namespace Rule

/-- Where the rule reads, it reads a token at least. -/
def Advances (r : Rule α) : Prop :=
  ∀ tokens a rest, r tokens = .ok (a, rest) → rest.length < tokens.length

theorem Follows.advances {L : List Token → α → Prop} {r : Rule α} (h : Follows L r)
    (hL : ∀ ts a, L ts a → ts ≠ []) : r.Advances := by
  intro tokens a rest hr
  obtain ⟨used, rfl, hused⟩ := h.reads tokens a rest hr
  have hpos := List.length_pos_iff.mpr (hL used a hused)
  rw [List.length_append]
  omega

end Rule

namespace Grammar

open Rule

variable {limit level : Nat} {below below' : Rules}

theorem follows_phrase (h : Follow limit (level + 1) below) (goal : Phrase) :
    Follows (Derives limit goal level) (goal.rule below) := by
  cases goal with
  | expression => exact follows_expression h
  | disjunct => exact follows_disjunct h
  | conjunct => exact follows_conjunct h
  | nullCheck => exact follows_nullCheck h
  | comparison => exact follows_comparison h
  | comparable => exact follows_comparable h
  | term => exact follows_term h
  | factor => exact follows_factor h

theorem shallower_phrase (h : below.Shallower below') (goal : Phrase) :
    Shallower (goal.rule below) (goal.rule below') := by
  cases goal with
  | expression => exact shallower_expression h
  | disjunct => exact shallower_disjunct h
  | conjunct => exact shallower_conjunct h
  | nullCheck => exact shallower_nullCheck h
  | comparison => exact shallower_comparison h
  | comparable => exact shallower_comparable h
  | term => exact shallower_term h
  | factor => exact shallower_factor h

/-- A phrase a level below, if there are any levels left. -/
def Phrase.nestedRule (goal : Phrase) : (levels : Nat) → Rule Expr
  | 0 => Rule.fail .nestedTooDeeply
  | levels + 1 => goal.rule (Rules.ofLevels levels)

end Grammar

/-! ## Routines and the levels below -/

namespace Routine

/-- Whatever level the routine is asked at, it does what the rule does with the levels below. -/
structure Leveled (r : Routine α) (rule : (levels : Nat) → Rule α) : Prop where
  agrees : ∀ {level levels : Nat}, level + levels = maxDepth →
    Agrees maxDepth level (· = level) r (rule levels)
  shallower : ∀ {fewer levels : Nat}, fewer ≤ levels → (rule fewer).Shallower (rule levels)
  advances : ∀ levels, (rule levels).Advances

theorem leveled_phrase (goal : Phrase) :
    Leveled goal.routine fun levels => goal.rule (Rules.ofLevels levels) where
  agrees h := (follows_phrase (below_ofLevels_last h) goal).agrees
  shallower h := shallower_phrase (Rules.shallower_ofLevels h) goal
  advances levels :=
    (Grammar.follows_phrase (follow_ofLevels (Nat.zero_add levels)) goal).advances
      fun _ _ => Derives.tokens_ne_nil

theorem leveled_nested (goal : Phrase) : Leveled goal.nested goal.nestedRule where
  agrees {level levels} h := by
    cases levels with
    | zero =>
      obtain rfl : level = maxDepth := h
      exact (follows_nested_last goal).agrees
    | succ levels =>
      exact (follows_nested (by omega) (below_ofLevels_last (by omega)) goal).agrees
  shallower {fewer levels} h := by
    cases fewer with
    | zero => exact Rule.shallower_tooDeep _
    | succ fewer =>
      obtain ⟨levels, rfl⟩ : ∃ n, levels = n + 1 := ⟨levels - 1, by omega⟩
      exact (leveled_phrase goal).shallower (Nat.le_of_succ_le_succ h)
  advances levels := by
    cases levels with
    | zero =>
      intro tokens a rest hr
      cases hr
    | succ levels => exact (leveled_phrase goal).advances levels

theorem leveled_tuple :
    Leveled Phrase.expression.tuple fun levels => Rule.tuple (Rules.ofLevels levels) where
  agrees h := (follows_tuple (below_ofLevels_last h)).agrees
  shallower h := Rule.shallower_tuple (Rules.shallower_ofLevels h)
  advances levels :=
    (Grammar.follows_tuple (follow_ofLevels (Nat.zero_add levels))).advances
      fun _ _ => Tuple.tokens_ne_nil

theorem leveled_items :
    Leveled Phrase.expression.items fun levels =>
      Rule.commaSeparated (Rule.expression (Rules.ofLevels levels)) where
  agrees h := (follows_expressions (below_ofLevels_last h)).agrees
  shallower h :=
    Rule.shallower_commaSeparated (Rule.shallower_expression (Rules.shallower_ofLevels h))
  advances levels :=
    (Grammar.follows_items (follow_ofLevels (Nat.zero_add levels))).advances
      fun _ _ => Items.tokens_ne_nil

end Routine

/-! ## Readings -/

/-- Whatever is on record, the routine reads `a` and leaves the cursor at `stop`, and but for that
and the record it leaves the parser as it was. -/
def Parser.Reads (p : Parser) (r : Routine α) (a : α) (stop : Nat) : Prop :=
  ∀ record, ∃ entered,
    r { p with entered := record } = some (.ok a, { p with current := stop, entered := entered })

namespace Routine

variable {limit stop : Nat} {p q : Parser} {r : Routine α} {rule : Rule α} {a : α}

/-- A result of a routine that keeps the level leaves the parser as it was, but for the cursor and
the record. -/
theorem Agrees.eq_of_ok (h : Agrees limit p.depth (· = p.depth) r rule) (hat : p.AtToken)
    (hlimit : p.limit = some limit) (hrun : r p = some (.ok a, q)) :
    ∃ used rest, p.rest = used ++ rest ∧ rule p.rest = .ok (a, rest) ∧
      q = { p with current := p.current + used.length, entered := q.entered } := by
  have hdoes := h p hat hlimit rfl
  rw [hrun] at hdoes
  generalize rule p.rest = outcome at hdoes
  cases hdoes with
  | @reads used log rest _ level hrest hlevel _ =>
    obtain rfl := hlevel
    exact ⟨used, rest, hrest, rfl, rfl⟩

/-- Such a routine reads what the rule reads. -/
theorem Agrees.reads_iff (h : Agrees limit p.depth (· = p.depth) r rule) (hat : p.AtToken)
    (hlimit : p.limit = some limit) :
    p.Reads r a stop ↔ ∃ used rest, p.rest = used ++ rest ∧
      rule p.rest = .ok (a, rest) ∧ stop = p.current + used.length := by
  constructor
  · intro hreads
    obtain ⟨entered, hrun⟩ := hreads p.entered
    obtain ⟨used, rest, hrest, hrule, hq⟩ := h.eq_of_ok hat hlimit hrun
    exact ⟨used, rest, hrest, hrule, congrArg Parser.current hq⟩
  · rintro ⟨used, rest, hrest, hrule, rfl⟩ record
    have hdoes : ({ p with entered := record } : Parser).Does (· = p.depth) (rule p.rest) (r _) :=
      h { p with entered := record } hat hlimit rfl
    rw [hrule] at hdoes
    generalize r { p with entered := record } = run at hdoes ⊢
    cases hdoes with
    | reads used' log hrest' hlevel _ =>
      obtain rfl : used = used' := List.append_cancel_right (hrest.symm.trans hrest')
      obtain rfl := hlevel
      exact ⟨_, rfl⟩

theorem Agrees.reads (h : Agrees limit p.depth (· = p.depth) r rule) (hat : p.AtToken)
    (hlimit : p.limit = some limit) (hrun : r p = some (.ok a, q)) :
    q = { p with current := q.current, entered := q.entered } ∧ p.Reads r a q.current := by
  obtain ⟨used, rest, hrest, hrule, hq⟩ := h.eq_of_ok hat hlimit hrun
  refine ⟨by rw [hq], ?_⟩
  exact (h.reads_iff hat hlimit).mpr ⟨used, rest, hrest, hrule, congrArg Parser.current hq⟩

end Routine

/-! ## Budgets -/

namespace Parser

open Routine

/-- What a run of the routine from the parser costs. -/
structure Budgeted (p : Parser) (r : Routine α) : Prop where
  /-- The run has an outcome.  No level that it has entered is beyond the last one, nor is the level
  in the end. -/
  bounded : ∃ outcome q log, r p = some (outcome, q) ∧ q.entered = log ++ p.entered ∧
    (∀ e ∈ log, e.level ≤ maxDepth) ∧ q.depth ≤ maxDepth
  /-- A result leaves the level as it was, and the cursor behind a token at least. -/
  restored : ∀ a q, r p = some (.ok a, q) →
    q = { p with current := q.current, entered := q.entered } ∧ p.current < q.current
  /-- The record does not matter to a result. -/
  unrecorded : ∀ a q, r p = some (.ok a, q) → p.Reads r a q.current
  /-- A result is also found from a level that is nearer to the first. -/
  shallower : ∀ a q, r p = some (.ok a, q) → ∀ level ≤ p.depth,
    ∃ entered, r { p with depth := level } =
      some (.ok a, { q with depth := level, entered := entered })

variable {s : TokenStream} {p q : Parser} {r : Routine α} {rule : Nat → Rule α} {a : α}
  {stop : Nat}

theorem Within.reads_iff (h : p.Within s) (hdepth : p.depth ≤ maxDepth) (hr : Leveled r rule) :
    p.Reads r a stop ↔ ∃ used rest, p.rest = used ++ rest ∧
      rule (maxDepth - p.depth) p.rest = .ok (a, rest) ∧ stop = p.current + used.length :=
  (hr.agrees (Nat.add_sub_of_le hdepth)).reads_iff h.atToken h.limit_eq

theorem Within.reads (h : p.Within s) (hdepth : p.depth ≤ maxDepth) (hr : Leveled r rule)
    (hrun : r p = some (.ok a, q)) :
    q = { p with current := q.current, entered := q.entered } ∧ p.Reads r a q.current :=
  (hr.agrees (Nat.add_sub_of_le hdepth)).reads h.atToken h.limit_eq hrun

/-- The cursor is behind a token at least. -/
theorem Within.current_lt (h : p.Within s) (hdepth : p.depth ≤ maxDepth) (hr : Leveled r rule)
    (hread : p.Reads r a stop) : p.current < stop := by
  obtain ⟨used, rest, hrest, hrule, rfl⟩ := (h.reads_iff hdepth hr).mp hread
  have hless := hr.advances _ _ _ _ hrule
  rw [hrest, List.length_append] at hless
  omega

/-- With more levels to go the rule reads the same. -/
theorem Within.reads_shallower (h : p.Within s) (hdepth : p.depth ≤ maxDepth) (hr : Leveled r rule)
    (hread : p.Reads r a stop) {level : Nat} (hlevel : level ≤ p.depth) :
    ({ p with depth := level } : Parser).Reads r a stop := by
  have hwithin : ({ p with depth := level } : Parser).Within s :=
    ⟨h.stream_eq, h.limit_eq, h.current_le⟩
  have hfewer : maxDepth - p.depth ≤ maxDepth - level := by omega
  obtain ⟨used, rest, hrest, hrule, rfl⟩ := (h.reads_iff hdepth hr).mp hread
  refine (hwithin.reads_iff (Nat.le_trans hlevel hdepth) hr).mpr ⟨used, rest, hrest, ?_, rfl⟩
  rcases hr.shallower hfewer p.rest with hsame | ⟨left, hdeep⟩
  · exact hsame.symm.trans hrule
  · rw [hrule] at hdeep
    cases hdeep

theorem Within.budgeted (h : p.Within s) (hdepth : p.depth ≤ maxDepth) (hr : Leveled r rule) :
    p.Budgeted r where
  bounded := by
    have hallows : ∀ level, p.Allows level → level ≤ maxDepth :=
      fun level hlevel => hlevel maxDepth h.limit_eq
    have hdoes := hr.agrees (Nat.add_sub_of_le hdepth) p h.atToken h.limit_eq rfl
    generalize rule (maxDepth - p.depth) p.rest = outcome, r p = run at hdoes
    cases hdoes with
    | reads used log _ hlevel hlog =>
      exact ⟨_, _, log, rfl, rfl, fun e he => hallows _ (hlog e he), hlevel ▸ hdepth⟩
    | fails used log _ hlevel hlog =>
      exact ⟨_, _, log, rfl, rfl, fun e he => hallows _ (hlog e he), hallows _ hlevel⟩
  restored a q hrun := by
    obtain ⟨hq, hread⟩ := h.reads hdepth hr hrun
    exact ⟨hq, h.current_lt hdepth hr hread⟩
  unrecorded a q hrun := (h.reads hdepth hr hrun).2
  shallower a q hrun level hlevel := by
    obtain ⟨hq, hread⟩ := h.reads hdepth hr hrun
    obtain ⟨entered, hshallow⟩ := h.reads_shallower hdepth hr hread hlevel p.entered
    refine ⟨entered, ?_⟩
    rw [hshallow, hq]

end Parser

end SqlForest
