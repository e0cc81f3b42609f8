import SqlForest.Proofs.Descent.Lockstep

/-!
# Phrases in lockstep

`Routine.Below` is what the routines of a level need of the level below it, and `Below.above` goes
up by one level.  Above the limit it is proved by induction on the levels that are left
(`Routine.below_ofLevels`).  At the limit the parsers part, and the one without a limit follows the
rules of the remaining levels by itself; for this the same statement is used with another limit,
which is the last of all levels (`Routine.below_ofLevels_last`).
-/

namespace SqlForest

open Grammar

namespace Routine

variable {α : Type} {limit level : Nat}

/-! ## Expressions -/

/-- What the routines of a level need of the level below it: they follow the rules of that level
once they have gone down to it. -/
structure Below (limit level : Nat) (wide narrow : Rules) : Prop where
  level_le : level ≤ limit
  /-- The operand of a chain and all that comes behind it. -/
  deeper : ∀ (c : Chain) (join : Expr → Expr), Follows limit level (fun _ => True)
    (do
      descend
      let right ← c.operand.routine
      c.further (join right))
    (c.operandOf wide >>= fun right => c.moreOf wide (join right))
    (c.operandOf narrow >>= fun right => c.moreOf narrow (join right))
  conjunct : Follows limit level (· = level) Phrase.conjunct.nested wide.conjunct
    narrow.conjunct
  term : Follows limit level (· = level) Phrase.term.nested wide.term narrow.term
  factor : Follows limit level (· = level) Phrase.factor.nested wide.factor narrow.factor

section Chains

variable {wide narrow : Rules}

/-- Each further operand of a chain is a level below the one before it. -/
theorem follows_further (h : Below limit level wide narrow) (c : Chain) (left : Expr) :
    Follows limit level (fun _ => True) (c.further left) (c.more wide left)
      (c.more narrow left) := by
  rw [Chain.further.eq_def]
  refine (follows_eat? (ordinary_chain c)).bind ?_
  rintro (_ | op) reached rfl
  · exact follows_pure left trivial
  · exact h.deeper c (.binary op left)

theorem follows_expression (h : Below limit level wide narrow) :
    Follows limit level (· = level) Phrase.expression.routine (Rule.expression wide)
      (Rule.expression narrow) := by
  rw [Phrase.routine.eq_def]
  refine follows_depth ?_
  have hread : Follows limit level (· = level) _ _ _ := (h.deeper .disjunction id).restore
  simp only [bind_assoc] at hread
  exact hread

theorem follows_chain (h : Below limit level wide narrow) (c : Chain)
    (hoperand : Follows limit level (· = level) c.operand.routine (c.operand.rule wide)
      (c.operand.rule narrow)) :
    Follows limit level (· = level) c.routine (c.rule wide) (c.rule narrow) := by
  rw [Chain.routine.eq_def]
  refine follows_depth ?_
  have hread : Follows limit level (fun _ => True) (c.operand.routine >>= c.further)
      (c.rule wide) (c.rule narrow) := by
    refine hoperand.bind ?_
    rintro first reached rfl
    exact follows_further h c first
  have hchain : Follows limit level (· = level) _ _ _ := hread.restore
  simp only [bind_assoc] at hchain
  exact hchain

end Chains

section Phrases

variable {wide narrow : Rules}

theorem follows_moreItems (h : Below limit level wide narrow) (read : List Expr) :
    Follows limit level (· = level) (Phrase.expression.moreItems read)
      (Rule.laterItems (Rule.expression wide) read)
      (Rule.laterItems (Rule.expression narrow) read) := by
  intro p hat hdepth
  exact lockstepAt_moreItems (Phrase.moreItems.eq_def .expression) (follows_expression h) hat hdepth
    (Nat.le_refl _) read

theorem follows_expressions (h : Below limit level wide narrow) :
    Follows limit level (· = level) Phrase.expression.items
      (Rule.commaSeparated (Rule.expression wide))
      (Rule.commaSeparated (Rule.expression narrow)) := by
  rw [Phrase.items.eq_def, Rule.commaSeparated_eq, Rule.commaSeparated_eq]
  refine (follows_expression h).bind ?_
  rintro first reached rfl
  exact follows_moreItems h [first]

theorem follows_tuple (h : Below limit level wide narrow) :
    Follows limit level (· = level) Phrase.expression.tuple (Rule.tuple wide)
      (Rule.tuple narrow) := by
  rw [Phrase.tuple.eq_def]
  refine (follows_kind (by decide) h.level_le).bind ?_
  rintro _ reached rfl
  refine (follows_kind? (by decide)).bind ?_
  rintro empty reached rfl
  cases empty with
  | true => exact follows_result []
  | false =>
    refine (follows_expressions h).bind ?_
    rintro items reached rfl
    refine (follows_kind (by decide) h.level_le).bind ?_
    rintro _ reached rfl
    exact follows_result items

/-- Behind a name the parsers look for a parenthesis. -/
theorem follows_named (h : Below limit level wide narrow) (name : String) :
    Follows limit level (· = level) (do
      if (← peek).kind = .leftParen then
        let arguments ← Phrase.expression.tuple
        pure (.call name arguments)
      else pure (.identifier name)) (Rule.named wide name) (Rule.named narrow name) := by
  intro p hat hdepth
  refine lockstepAt_peek hat ?_
  by_cases hopening : p.next.kind = .leftParen
  · obtain ⟨t, rest, hrest, ht⟩ := Parser.exists_rest_of_kind (by decide) hopening
    have hrule : ∀ below, Rule.named below name p.rest =
        (Expr.call name <$> Rule.tuple below) p.rest := by
      intro below
      rw [hrest, Rule.named, if_pos ht]
    rw [if_pos hopening]
    exact ((follows_tuple h).map p hat hdepth).of_eq (hrule wide) (hrule narrow)
  · have hrule : ∀ below, Rule.named below name p.rest =
        (pure (.identifier name) : Rule Expr) p.rest := by
      intro below
      cases hrest : p.rest with
      | nil => rfl
      | cons t rest =>
        rw [(Parser.next_of_cons hrest).1] at hopening
        exact if_neg hopening
    rw [if_neg hopening]
    exact (follows_result _ p hat hdepth).of_eq (hrule wide) (hrule narrow)

theorem follows_closed (h : Below limit level wide narrow) :
    Follows limit level (· = level) (do
      let inner ← Phrase.expression.routine
      let _ ← kind .rightParen
      pure inner) (Rule.closed wide) (Rule.closed narrow) := by
  refine (follows_expression h).bind ?_
  rintro inner reached rfl
  refine (follows_kind (by decide) h.level_le).bind ?_
  rintro _ reached rfl
  exact follows_result inner

/-- The next token, which all sides look at, decides what follows. -/
theorem follows_factor (h : Below limit level wide narrow) :
    Follows limit level (· = level) Phrase.factor.routine (Rule.factor wide)
      (Rule.factor narrow) := by
  intro p hat hdepth
  have hle : p.depth ≤ limit := hdepth ▸ h.level_le
  rw [Phrase.routine.eq_def]
  refine lockstepAt_peek hat ?_
  cases hrest : p.rest with
  | nil =>
    have hrule : ∀ below, Rule.factor below p.rest = .error ⟨p.rest, .expected .expression⟩ := by
      intro below
      rw [hrest]
      rfl
    rw [(Parser.next_of_nil hrest).2]
    exact lockstepAt_refuse hat hle (hrule wide) (hrule narrow)
  | cons t rest =>
    have hbehind : (p.moved 1 p.depth []).AtToken := hat.moved [t] hrest p.depth []
    have hadvance : ∀ {f : Unit → Routine Expr} n,
        (advance >>= f) (p.under n) = f () ((p.under n).moved 1 p.depth []) :=
      fun n => advance_bind (p := p.under n) hrest
    rw [(Parser.next_of_cons hrest).1]
    cases hk : t.kind with
    | identifier =>
      have hrule : ∀ below, Rule.factor below p.rest = Rule.named below t.lexeme rest := by
        intro below
        simp only [hrest, Rule.factor, hk]
      exact .past hrest (fun n => kind_bind_of_cons (p := p.under n) hrest hk) (hrule wide)
        (hrule narrow) (follows_named h t.lexeme _ hbehind hdepth)
    | leftParen =>
      have hrule : ∀ below, Rule.factor below p.rest = Rule.closed below rest := by
        intro below
        simp only [hrest, Rule.factor, hk]
      exact .past hrest hadvance (hrule wide) (hrule narrow) (follows_closed h _ hbehind hdepth)
    | operator =>
      cases hsign : UnaryOp.sign? t.lexeme with
      | none =>
        have hrule : ∀ below, Rule.factor below p.rest = .error ⟨p.rest, .notASign⟩ := by
          intro below
          simp only [hrest, Rule.factor, hk, hsign]
        exact lockstepAt_refuse hat hle (hrule wide) (hrule narrow)
      | some sign =>
        have hrule : ∀ below, Rule.factor below p.rest =
            (Expr.unary sign <$> below.factor) rest := by
          intro below
          simp only [hrest, Rule.factor, hk, hsign]
        exact .past hrest hadvance (hrule wide) (hrule narrow) (h.factor.map _ hbehind hdepth)
    | number =>
      cases hvalue : Integer.ofText? t.lexeme with
      | none =>
        have hrule : ∀ below, Rule.factor below p.rest = .error ⟨p.rest, .numberTooLong⟩ := by
          intro below
          simp only [hrest, Rule.factor, hk, hvalue]
        exact lockstepAt_refuse hat hle (hrule wide) (hrule narrow)
      | some value =>
        have hrule : ∀ below, Rule.factor below p.rest =
            (pure (.number value) : Rule Expr) rest := by
          intro below
          simp only [hrest, Rule.factor, hk, hvalue]
          rfl
        exact .past hrest hadvance (hrule wide) (hrule narrow) (lockstepAt_pure _ hdepth)
    | string =>
      have hrule : ∀ below, Rule.factor below p.rest =
          (pure (.string t.lexeme) : Rule Expr) rest := by
        intro below
        simp only [hrest, Rule.factor, hk]
        rfl
      exact .past hrest hadvance (hrule wide) (hrule narrow) (lockstepAt_pure _ hdepth)
    | _ =>
      have hrule : ∀ below, Rule.factor below p.rest =
          .error ⟨p.rest, .expected .expression⟩ := by
        intro below
        simp only [hrest, Rule.factor, hk]
      exact lockstepAt_refuse hat hle (hrule wide) (hrule narrow)

theorem follows_term (h : Below limit level wide narrow) :
    Follows limit level (· = level) Phrase.term.routine (Rule.term wide) (Rule.term narrow) := by
  rw [Phrase.routine.eq_def]
  refine (follows_factor h).bind ?_
  rintro left reached rfl
  refine (follows_eat? (ordinary_operator? _)).bind ?_
  rintro (_ | op) reached rfl
  · exact follows_result left
  · exact h.term.map

theorem follows_comparable (h : Below limit level wide narrow) :
    Follows limit level (· = level) Phrase.comparable.routine (Rule.comparable wide)
      (Rule.comparable narrow) := by
  rw [Phrase.routine.eq_def]
  exact follows_chain h .sum (follows_term h)

theorem follows_comparison (h : Below limit level wide narrow) :
    Follows limit level (· = level) Phrase.comparison.routine (Rule.comparison wide)
      (Rule.comparison narrow) := by
  rw [Phrase.routine.eq_def]
  exact follows_chain h .comparison (follows_comparable h)

theorem follows_nullCheck (h : Below limit level wide narrow) :
    Follows limit level (· = level) Phrase.nullCheck.routine (Rule.nullCheck wide)
      (Rule.nullCheck narrow) := by
  rw [Phrase.routine.eq_def]
  refine (follows_comparison h).bind ?_
  rintro operand reached rfl
  refine (follows_keyword? .IS).bind ?_
  rintro checked reached rfl
  cases checked with
  | true =>
    refine (follows_keyword? .NOT).bind ?_
    rintro negated reached rfl
    refine (follows_keyword .NULL h.level_le).bind ?_
    rintro _ reached rfl
    exact follows_result _
  | false => exact follows_result operand

theorem follows_conjunct (h : Below limit level wide narrow) :
    Follows limit level (· = level) Phrase.conjunct.routine (Rule.conjunct wide)
      (Rule.conjunct narrow) := by
  rw [Phrase.routine.eq_def]
  refine (follows_keyword? .NOT).bind ?_
  rintro negated reached rfl
  cases negated with
  | true => exact h.conjunct.map
  | false => exact follows_nullCheck h

theorem follows_disjunct (h : Below limit level wide narrow) :
    Follows limit level (· = level) Phrase.disjunct.routine (Rule.disjunct wide)
      (Rule.disjunct narrow) := by
  rw [Phrase.routine.eq_def]
  exact follows_chain h .conjunction (follows_conjunct h)

theorem follows_phrase (h : Below limit level wide narrow) (goal : Phrase) :
    Follows limit level (· = level) goal.routine (goal.rule wide) (goal.rule narrow) := by
  cases goal with
  | expression => exact follows_expression h
  | disjunct => exact follows_disjunct h
  | conjunct => exact follows_conjunct h
  | nullCheck => exact follows_nullCheck h
  | comparison => exact follows_comparison h
  | comparable => exact follows_comparable h
  | term => exact follows_term h
  | factor => exact follows_factor h

end Phrases

/-! ## From level to level -/

section Levels

variable {wide narrow : Rules}

theorem follows_operand (h : Below limit level wide narrow) (c : Chain) (join : Expr → Expr) :
    Follows limit level (fun _ => True)
      (c.operand.routine >>= fun right => c.further (join right))
      (c.operand.rule wide >>= fun right => c.more wide (join right))
      (c.operand.rule narrow >>= fun right => c.more narrow (join right)) := by
  refine (follows_phrase h c.operand).bind ?_
  rintro right reached rfl
  exact follows_further h c (join right)

theorem follows_nested (hlevel : level < limit) (h : Below limit (level + 1) wide narrow)
    (goal : Phrase) :
    Follows limit level (· = level) goal.nested (goal.rule wide) (goal.rule narrow) := by
  rw [Phrase.nested.eq_def]
  refine follows_depth (follows_descend hlevel ?_)
  exact (follows_phrase h goal).backAt (Nat.le_of_lt hlevel)

theorem Below.above (hlevel : level < limit) (h : Below limit (level + 1) wide narrow) :
    Below limit level (Rules.above wide) (Rules.above narrow) where
  level_le := Nat.le_of_lt hlevel
  deeper c join := by
    simp only [Chain.operandOf_above, Chain.moreOf_above]
    exact follows_descend hlevel (follows_operand h c join)
  conjunct := follows_nested hlevel h .conjunct
  term := follows_nested hlevel h .term
  factor := follows_nested hlevel h .factor

theorem follows_nested_last (goal : Phrase) :
    Follows limit limit (· = limit) goal.nested (Rule.fail .nestedTooDeeply)
      (Rule.fail .nestedTooDeeply) := by
  rw [Phrase.nested.eq_def]
  exact follows_depth follows_descend_last

/-- There are no levels left for either of the parsers. -/
theorem below_tooDeep : Below limit limit Rules.tooDeep Rules.tooDeep where
  level_le := Nat.le_refl limit
  deeper c join := by
    rw [Chain.operandOf_tooDeep]
    exact follows_descend_last
  conjunct := follows_nested_last .conjunct
  term := follows_nested_last .term
  factor := follows_nested_last .factor

/-- The limit is the last of all levels. -/
theorem below_ofLevels_last {levels : Nat} (h : level + levels = limit) :
    Below limit level (Rules.ofLevels levels) (Rules.ofLevels levels) := by
  induction levels generalizing level with
  | zero =>
    obtain rfl : level = limit := h
    exact below_tooDeep
  | succ levels ih =>
    have hbelow : Below limit (level + 1) (Rules.ofLevels levels) (Rules.ofLevels levels) :=
      ih (by omega)
    exact hbelow.above (by omega)

theorem follows_nested_limit {deepest : Nat} (h : Below deepest (limit + 1) wide narrow)
    (goal : Phrase) :
    Follows limit limit (· = limit) goal.nested (goal.rule wide)
      (Rule.fail .nestedTooDeeply) := by
  have hread : Follows deepest (limit + 1) (· = limit) (fun p => backAt limit <$> goal.routine p)
      (goal.rule wide) (goal.rule narrow) :=
    (follows_phrase h goal).backAt (Nat.le_of_succ_le h.level_le)
  rw [Phrase.nested.eq_def]
  exact follows_depth (follows_descend_limit hread)

/-- At the limit, when the parser without one follows the rules of the levels below. -/
theorem below_limit {deepest : Nat} (h : Below deepest (limit + 1) wide narrow) :
    Below limit limit (Rules.above wide) Rules.tooDeep where
  level_le := Nat.le_refl limit
  deeper c join := by
    rw [Chain.operandOf_tooDeep]
    simp only [Chain.operandOf_above, Chain.moreOf_above]
    exact follows_descend_limit (follows_operand h c join)
  conjunct := follows_nested_limit h .conjunct
  term := follows_nested_limit h .term
  factor := follows_nested_limit h .factor

/-- Without a limit the rules of all levels are followed, and with it those of the levels up to
it. -/
theorem below_ofLevels {levels more : Nat} (h : level + levels = limit) :
    Below limit level (Rules.ofLevels (levels + more)) (Rules.ofLevels levels) := by
  induction levels generalizing level with
  | zero =>
    obtain rfl : level = limit := h
    rw [Nat.zero_add]
    cases more with
    | zero => exact below_tooDeep
    -- Below the limit one parser is alone, and the levels that are left are its last ones.
    | succ more => exact below_limit (below_ofLevels_last (Nat.add_comm (level + 1) more))
  | succ levels ih =>
    have hbelow : Below limit (level + 1) (Rules.ofLevels (levels + more))
        (Rules.ofLevels levels) := ih (by omega)
    rw [Nat.add_right_comm]
    exact hbelow.above (by omega)

end Levels

end Routine

end SqlForest
