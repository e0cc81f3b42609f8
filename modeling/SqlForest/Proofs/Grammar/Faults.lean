import SqlForest.Proofs.Rule.Lookahead

/-!
# Faults tell the truth

A rule fails at a token with a fault that is about this very token (`SyntaxFault.Describes`): what
is expected is not what stands there, and a number that is too long stands where it is reported.  As
no rule fails in any other way, this goes through sequences and from level to level, up to the rule
for statements (`Rule.truthful_statement`).
-/

namespace SqlForest

/-- The fault is about the next token, or about the end of input if there is none. -/
def SyntaxFault.Describes (next : Option Token) : SyntaxFault → Prop
  | expected (.kind k) => ∀ t ∈ next, t.kind ≠ k
  | expected (.keyword k) => ∀ t ∈ next, t.keyword? ≠ some k
  | expected .expression =>
    ∀ t ∈ next, t.kind ∉ [.identifier, .leftParen, .operator, .number, .string]
  | expected .statement => ∀ t ∈ next, t.kind ≠ .keyword
  | unexpectedKeyword =>
    ∃ t ∈ next, t.kind = .keyword ∧
      ∀ k ∈ [Keyword.USE, .SELECT, .INSERT, .DELETE], t.keyword? ≠ some k
  | notASign => ∃ t ∈ next, t.kind = .operator ∧ UnaryOp.sign? t.lexeme = none
  | numberTooLong => ∃ t ∈ next, t.kind = .number ∧ Integer.ofText? t.lexeme = none
  | nestedTooDeeply => True

namespace Rule

variable {α β : Type}

/-- Where the rule fails the fault is about the next token. -/
def Truthful (r : Rule α) : Prop :=
  ∀ tokens failure, r tokens = .error failure → failure.fault.Describes failure.rest.head?

/-! ## Rules in general -/

theorem truthful_pure (a : α) : Truthful (pure a : Rule α) := by
  intro tokens failure h
  cases h

theorem truthful_tooDeep : Truthful (fail .nestedTooDeeply : Rule α) := by
  intro tokens failure h
  cases h
  trivial

theorem Truthful.bind {r : Rule α} {f : α → Rule β} (hr : Truthful r)
    (hf : ∀ a, Truthful (f a)) : Truthful (r >>= f) := by
  intro tokens failure h
  rcases bind_eq_error.mp h with h | ⟨a, middle, -, h⟩
  · exact hr tokens failure h
  · exact hf a middle failure h

theorem Truthful.map {f : α → β} {r : Rule α} (hr : Truthful r) : Truthful (f <$> r) := by
  intro tokens failure h
  exact hr tokens failure (map_eq_error.mp h)

theorem truthful_accept? (f : Token → Option α) : Truthful (accept? f) := by
  intro tokens failure h
  cases tokens with
  | nil => cases h
  | cons t tokens =>
    rw [accept?_cons] at h
    cases h

/-- What a rule requires is not there if the fault says so. -/
theorem truthful_require {f : Token → Option α} {what : Expectation}
    (hnone : (SyntaxFault.expected what).Describes none)
    (hsome : ∀ t, f t = none → (SyntaxFault.expected what).Describes (some t)) :
    Truthful (require f what) := by
  intro tokens failure h
  cases tokens with
  | nil =>
    cases h
    exact hnone
  | cons t tokens =>
    cases ht : f t with
    | some a =>
      rw [require, ht] at h
      cases h
    | none =>
      rw [require, ht] at h
      cases h
      exact hsome t ht

theorem truthful_kind (k : TokenKind) : Truthful (kind k) := by
  refine truthful_require nofun ?_
  rintro t ht _ ⟨⟩ hk
  rw [Token.lexemeOf?, if_pos hk] at ht
  cases ht

theorem truthful_keyword (k : Keyword) : Truthful (keyword k) := by
  refine truthful_require nofun ?_
  rintro t ht _ ⟨⟩ hk
  rw [Token.isKeyword?, if_pos hk] at ht
  cases ht

theorem truthful_kind? (k : TokenKind) : Truthful (kind? k) :=
  (truthful_accept? _).map

theorem truthful_keyword? (k : Keyword) : Truthful (keyword? k) :=
  (truthful_accept? _).map

theorem truthful_moreItems {item : Rule α} (h : Truthful item) (budget : List Token)
    (read : List α) : Truthful (moreItems item budget read) := by
  induction budget generalizing read with
  | nil => exact truthful_pure read.reverse
  | cons b budget ih =>
    refine (truthful_kind? .comma).bind ?_
    intro comma
    cases comma with
    | true => exact h.bind fun a => ih (a :: read)
    | false => exact truthful_pure read.reverse

theorem truthful_commaSeparated {item : Rule α} (h : Truthful item) :
    Truthful (commaSeparated item) := by
  refine h.bind ?_
  intro first tokens
  exact truthful_moreItems h tokens [first] tokens

end Rule

/-! ## Expressions -/

/-- All rules of a level are truthful. -/
structure Rules.Truthful (rules : Rules) : Prop where
  disjunct : rules.disjunct.Truthful
  moreDisjuncts : ∀ left, (rules.moreDisjuncts left).Truthful
  conjunct : rules.conjunct.Truthful
  moreConjuncts : ∀ left, (rules.moreConjuncts left).Truthful
  comparable : rules.comparable.Truthful
  moreComparables : ∀ left, (rules.moreComparables left).Truthful
  term : rules.term.Truthful
  moreTerms : ∀ left, (rules.moreTerms left).Truthful
  factor : rules.factor.Truthful

namespace Rule

variable {below : Rules}

theorem truthful_chain {operator? : Token → Option BinaryOp} {operand : Rules → Rule Expr}
    {more : Rules → Expr → Rule Expr} (hoperand : (operand below).Truthful)
    (hmore : ∀ left, (more below left).Truthful) (left : Expr) :
    (chain below operator? operand more left).Truthful := by
  refine (truthful_accept? operator?).bind ?_
  intro found
  cases found with
  | none => exact truthful_pure left
  | some op => exact hoperand.bind fun right => hmore (.binary op left right)

theorem truthful_expression (h : below.Truthful) : (expression below).Truthful :=
  h.disjunct.bind fun first => h.moreDisjuncts first

theorem truthful_tuple (h : below.Truthful) : (tuple below).Truthful := by
  refine (truthful_kind .leftParen).bind ?_
  intro _
  refine (truthful_kind? .rightParen).bind ?_
  intro empty
  cases empty with
  | true => exact truthful_pure []
  | false =>
    refine (truthful_commaSeparated (truthful_expression h)).bind ?_
    intro items
    exact (truthful_kind .rightParen).bind fun _ => truthful_pure items

theorem truthful_named (h : below.Truthful) (name : String) : (named below name).Truthful := by
  intro tokens failure hfail
  cases tokens with
  | nil => cases hfail
  | cons t tokens =>
    rw [named] at hfail
    split at hfail
    · exact (truthful_tuple h).map _ _ hfail
    · cases hfail

theorem truthful_closed (h : below.Truthful) : (closed below).Truthful := by
  refine (truthful_expression h).bind ?_
  intro inner
  exact (truthful_kind .rightParen).bind fun _ => truthful_pure inner

/-- Each way to fail at the start of a factor is about its first token. -/
theorem truthful_factor (h : below.Truthful) : (factor below).Truthful := by
  intro tokens failure hfail
  cases tokens with
  | nil =>
    cases hfail
    exact nofun
  | cons t tokens =>
    rw [factor] at hfail
    split at hfail
    · exact truthful_named h t.lexeme _ _ hfail
    · exact truthful_closed h _ _ hfail
    · rename_i hkind
      split at hfail
      · exact h.factor.map _ _ hfail
      · rename_i hsign
        cases hfail
        exact ⟨t, rfl, hkind, hsign⟩
    · rename_i hkind
      split at hfail
      · cases hfail
      · rename_i hvalue
        cases hfail
        exact ⟨t, rfl, hkind, hvalue⟩
    · cases hfail
    · cases hfail
      rintro _ ⟨⟩
      simp only [List.mem_cons, List.not_mem_nil, or_false, not_or]
      exact ⟨by assumption, by assumption, by assumption, by assumption, by assumption⟩

theorem truthful_term (h : below.Truthful) : (term below).Truthful := by
  refine (truthful_factor h).bind ?_
  intro left
  refine (truthful_accept? _).bind ?_
  intro found
  cases found with
  | none => exact truthful_pure left
  | some op => exact h.term.map

theorem truthful_moreTerms (h : below.Truthful) (left : Expr) : (moreTerms below left).Truthful :=
  truthful_chain h.term h.moreTerms left

theorem truthful_comparable (h : below.Truthful) : (comparable below).Truthful :=
  (truthful_term h).bind fun first => truthful_moreTerms h first

theorem truthful_moreComparables (h : below.Truthful) (left : Expr) :
    (moreComparables below left).Truthful :=
  truthful_chain h.comparable h.moreComparables left

theorem truthful_comparison (h : below.Truthful) : (comparison below).Truthful :=
  (truthful_comparable h).bind fun first => truthful_moreComparables h first

theorem truthful_nullCheck (h : below.Truthful) : (nullCheck below).Truthful := by
  refine (truthful_comparison h).bind ?_
  intro operand
  refine (truthful_keyword? .IS).bind ?_
  intro checked
  cases checked with
  | true =>
    refine (truthful_keyword? .NOT).bind ?_
    intro negated
    exact (truthful_keyword .NULL).bind fun _ => truthful_pure _
  | false => exact truthful_pure operand

theorem truthful_conjunct (h : below.Truthful) : (conjunct below).Truthful := by
  refine (truthful_keyword? .NOT).bind ?_
  intro negated
  cases negated with
  | true => exact h.conjunct.map
  | false => exact truthful_nullCheck h

theorem truthful_moreConjuncts (h : below.Truthful) (left : Expr) :
    (moreConjuncts below left).Truthful :=
  truthful_chain h.conjunct h.moreConjuncts left

theorem truthful_disjunct (h : below.Truthful) : (disjunct below).Truthful :=
  (truthful_conjunct h).bind fun first => truthful_moreConjuncts h first

theorem truthful_moreDisjuncts (h : below.Truthful) (left : Expr) :
    (moreDisjuncts below left).Truthful :=
  truthful_chain h.disjunct h.moreDisjuncts left

end Rule

theorem Rules.truthful_tooDeep : Rules.tooDeep.Truthful where
  disjunct := Rule.truthful_tooDeep
  moreDisjuncts _ := Rule.truthful_tooDeep
  conjunct := Rule.truthful_tooDeep
  moreConjuncts _ := Rule.truthful_tooDeep
  comparable := Rule.truthful_tooDeep
  moreComparables _ := Rule.truthful_tooDeep
  term := Rule.truthful_tooDeep
  moreTerms _ := Rule.truthful_tooDeep
  factor := Rule.truthful_tooDeep

theorem Rules.Truthful.above {below : Rules} (h : below.Truthful) :
    (Rules.above below).Truthful where
  disjunct := Rule.truthful_disjunct h
  moreDisjuncts := Rule.truthful_moreDisjuncts h
  conjunct := Rule.truthful_conjunct h
  moreConjuncts := Rule.truthful_moreConjuncts h
  comparable := Rule.truthful_comparable h
  moreComparables := Rule.truthful_moreComparables h
  term := Rule.truthful_term h
  moreTerms := Rule.truthful_moreTerms h
  factor := Rule.truthful_factor h

theorem Rules.truthful_ofLevels (levels : Nat) : (Rules.ofLevels levels).Truthful := by
  induction levels with
  | zero => exact truthful_tooDeep
  | succ levels ih => exact ih.above

/-! ## Statements -/

namespace Rule

variable {levels : Rules}

theorem truthful_tableName : tableName.Truthful := by
  refine (truthful_kind .identifier).bind ?_
  intro first
  refine (truthful_kind? .period).bind ?_
  intro qualified
  cases qualified with
  | true => exact (truthful_kind .identifier).bind fun table => truthful_pure _
  | false => exact truthful_pure _

theorem truthful_clause? {α : Type} {word : Keyword} {rule : Rule α} (h : rule.Truthful) :
    (clause? word rule).Truthful := by
  refine (truthful_keyword? word).bind ?_
  intro present
  cases present with
  | true => exact h.map
  | false => exact truthful_pure none

theorem truthful_terminator {α : Type} (a : α) :
    (terminator >>= fun _ => pure a : Rule α).Truthful := by
  rw [terminator_bind]
  exact (truthful_kind .semicolon).bind fun _ => truthful_pure a

theorem truthful_useBody : useBody.Truthful :=
  (truthful_kind .identifier).bind fun database => truthful_terminator (Statement.use database)

theorem truthful_selectBody (h : levels.Truthful) : (selectBody levels).Truthful := by
  have hexpression := truthful_expression h
  refine (truthful_commaSeparated hexpression).bind ?_
  intro items
  refine (truthful_clause? truthful_tableName).bind ?_
  intro source
  refine (truthful_clause? hexpression).bind ?_
  intro condition
  refine (truthful_clause? ((truthful_keyword .BY).bind fun _ => hexpression)).bind ?_
  intro order
  exact truthful_terminator _

theorem truthful_insertBody (h : levels.Truthful) : (insertBody levels).Truthful := by
  refine (truthful_keyword .INTO).bind ?_
  intro _
  refine truthful_tableName.bind ?_
  intro table
  refine (truthful_kind .leftParen).bind ?_
  intro _
  refine (truthful_commaSeparated (truthful_kind .identifier)).bind ?_
  intro columns
  refine (truthful_kind .rightParen).bind ?_
  intro _
  refine (truthful_keyword .VALUES).bind ?_
  intro _
  exact (truthful_tuple h).bind fun values => truthful_terminator _

theorem truthful_deleteBody (h : levels.Truthful) : (deleteBody levels).Truthful := by
  refine (truthful_keyword .FROM).bind ?_
  intro _
  refine truthful_tableName.bind ?_
  intro table
  refine (truthful_keyword .WHERE).bind ?_
  intro _
  exact (truthful_expression h).bind fun condition => truthful_terminator _

/-- A statement that fails does so with a fault of the token where it fails. -/
theorem truthful_statement (h : levels.Truthful) : (statement levels).Truthful := by
  intro tokens failure hfail
  cases tokens with
  | nil =>
    cases hfail
    exact nofun
  | cons t tokens =>
    rw [statement] at hfail
    split at hfail
    · rename_i hkind
      split at hfail
      · exact truthful_useBody _ _ hfail
      · exact truthful_selectBody h _ _ hfail
      · exact truthful_insertBody h _ _ hfail
      · exact truthful_deleteBody h _ _ hfail
      · cases hfail
        refine ⟨t, rfl, hkind, ?_⟩
        intro k hk
        simp only [List.mem_cons, List.not_mem_nil, or_false] at hk
        rcases hk with rfl | rfl | rfl | rfl <;> assumption
    · rename_i hkind
      cases hfail
      rintro _ ⟨⟩
      exact hkind

end Rule

end SqlForest
