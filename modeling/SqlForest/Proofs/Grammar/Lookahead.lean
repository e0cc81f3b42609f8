import SqlForest.Proofs.Rule.Lookahead

/-!
# The grammar looks ahead by one token

`Rules.inner_ofLevels` shows by induction on the levels that every rule for a part of an expression
is `Rule.Inner`, and `Rule.whole_statement` that the rule for statements is `Rule.Whole`: it reads
up to a semicolon, or fails at or in front of the first one, and what follows does not matter.
-/

namespace SqlForest

/-! ## Expressions -/

/-- The rules of a level are for parts of statements. -/
structure Rules.Inner (rules : Rules) : Prop where
  disjunct : rules.disjunct.Inner
  moreDisjuncts : ∀ left, (rules.moreDisjuncts left).Inner
  conjunct : rules.conjunct.Inner
  moreConjuncts : ∀ left, (rules.moreConjuncts left).Inner
  comparable : rules.comparable.Inner
  moreComparables : ∀ left, (rules.moreComparables left).Inner
  term : rules.term.Inner
  moreTerms : ∀ left, (rules.moreTerms left).Inner
  factor : rules.factor.Inner

theorem Token.operator?_ne_semicolon {group : List BinaryOp} {t : Token} {op : BinaryOp}
    (h : t.operator? group = some op) : t.kind ≠ .semicolon := by
  rw [Rule.kind_of_operator? h]
  decide

theorem Token.disjunction?_ne_semicolon {t : Token} {op : BinaryOp}
    (h : t.disjunction? = some op) : t.kind ≠ .semicolon :=
  Rule.keyword_ne_semicolon (Rule.keyword?_of_disjunction? h)

theorem Token.conjunction?_ne_semicolon {t : Token} {op : BinaryOp}
    (h : t.conjunction? = some op) : t.kind ≠ .semicolon :=
  Rule.keyword_ne_semicolon (Rule.keyword?_of_conjunction? h)

namespace Rule

variable {below : Rules}

theorem inner_chain {operator? : Token → Option BinaryOp} {operand : Rules → Rule Expr}
    {more : Rules → Expr → Rule Expr}
    (hop : ∀ t op, operator? t = some op → t.kind ≠ .semicolon) (hoperand : (operand below).Inner)
    (hmore : ∀ left, (more below left).Inner) (left : Expr) :
    (chain below operator? operand more left).Inner := by
  unfold chain
  refine (inner_accept? hop).bind ?_
  intro found
  cases found with
  | none => exact inner_pure left
  | some op => exact hoperand.bind fun right => hmore (.binary op left right)

theorem inner_expression (h : below.Inner) : (expression below).Inner :=
  h.disjunct.bind fun first => h.moreDisjuncts first

theorem inner_tuple (h : below.Inner) : (tuple below).Inner := by
  unfold tuple
  refine (inner_kind (by decide)).bind ?_
  intro _
  refine (inner_kind? (by decide)).bind ?_
  intro empty
  split
  · exact inner_pure []
  · refine (inner_commaSeparated (inner_expression h)).bind ?_
    intro items
    exact (inner_kind (by decide)).bind fun _ => inner_pure items

theorem inner_named (h : below.Inner) (name : String) : (named below name).Inner := by
  refine inner_of_next (named_eq below name) ?_
  intro next
  unfold namedBefore
  split
  · exact inner_pure _
  · split
    · exact (inner_tuple h).map
    · exact inner_pure _

theorem inner_closed (h : below.Inner) : (closed below).Inner := by
  refine (inner_expression h).bind ?_
  intro inner
  exact (inner_kind (by decide)).bind fun _ => inner_pure inner

theorem inner_factor (h : below.Inner) : (factor below).Inner := by
  refine inner_of_next (factor_eq below) ?_
  intro next
  unfold factorFrom
  split
  · exact inner_fail _
  · split
    · exact (inner_kind (by decide)).bind fun name => inner_named h name
    · exact (inner_kind (by decide)).bind fun _ => inner_closed h
    · split
      · refine Inner.bind (inner_require ?_) fun sign => h.factor.map
        intro t sign ht
        rw [(sign?_eq_some.mp ht).1]
        decide
      · exact inner_fail _
    · split
      · refine Inner.bind (inner_require ?_) fun value => inner_pure _
        intro t value ht
        rw [(integer?_eq_some.mp ht).1]
        decide
      · exact inner_fail _
    · exact (inner_kind (by decide)).bind fun body => inner_pure _
    · exact inner_fail _

theorem inner_term (h : below.Inner) : (term below).Inner := by
  refine (inner_factor h).bind ?_
  intro left
  refine (inner_accept? fun _ _ => Token.operator?_ne_semicolon).bind ?_
  intro found
  cases found with
  | none => exact inner_pure left
  | some op => exact h.term.map

theorem inner_moreTerms (h : below.Inner) (left : Expr) : (moreTerms below left).Inner :=
  inner_chain (fun _ _ => Token.operator?_ne_semicolon) h.term h.moreTerms left

theorem inner_comparable (h : below.Inner) : (comparable below).Inner :=
  (inner_term h).bind fun first => inner_moreTerms h first

theorem inner_moreComparables (h : below.Inner) (left : Expr) :
    (moreComparables below left).Inner :=
  inner_chain (fun _ _ => Token.operator?_ne_semicolon) h.comparable h.moreComparables left

theorem inner_comparison (h : below.Inner) : (comparison below).Inner :=
  (inner_comparable h).bind fun first => inner_moreComparables h first

theorem inner_nullCheck (h : below.Inner) : (nullCheck below).Inner := by
  refine (inner_comparison h).bind ?_
  intro operand
  refine (inner_keyword? .IS).bind ?_
  intro checked
  split
  · refine (inner_keyword? .NOT).bind ?_
    intro negated
    exact (inner_keyword .NULL).bind fun _ => inner_pure _
  · exact inner_pure operand

theorem inner_conjunct (h : below.Inner) : (conjunct below).Inner := by
  refine (inner_keyword? .NOT).bind ?_
  intro negated
  split
  · exact h.conjunct.map
  · exact inner_nullCheck h

theorem inner_moreConjuncts (h : below.Inner) (left : Expr) : (moreConjuncts below left).Inner :=
  inner_chain (fun _ _ => Token.conjunction?_ne_semicolon) h.conjunct h.moreConjuncts left

theorem inner_disjunct (h : below.Inner) : (disjunct below).Inner :=
  (inner_conjunct h).bind fun first => inner_moreConjuncts h first

theorem inner_moreDisjuncts (h : below.Inner) (left : Expr) : (moreDisjuncts below left).Inner :=
  inner_chain (fun _ _ => Token.disjunction?_ne_semicolon) h.disjunct h.moreDisjuncts left

end Rule

theorem Rules.inner_tooDeep : Rules.tooDeep.Inner where
  disjunct := Rule.inner_fail _
  moreDisjuncts _ := Rule.inner_fail _
  conjunct := Rule.inner_fail _
  moreConjuncts _ := Rule.inner_fail _
  comparable := Rule.inner_fail _
  moreComparables _ := Rule.inner_fail _
  term := Rule.inner_fail _
  moreTerms _ := Rule.inner_fail _
  factor := Rule.inner_fail _

theorem Rules.Inner.above {below : Rules} (h : below.Inner) : (Rules.above below).Inner where
  disjunct := Rule.inner_disjunct h
  moreDisjuncts := Rule.inner_moreDisjuncts h
  conjunct := Rule.inner_conjunct h
  moreConjuncts := Rule.inner_moreConjuncts h
  comparable := Rule.inner_comparable h
  moreComparables := Rule.inner_moreComparables h
  term := Rule.inner_term h
  moreTerms := Rule.inner_moreTerms h
  factor := Rule.inner_factor h

theorem Rules.inner_ofLevels (levels : Nat) : (Rules.ofLevels levels).Inner := by
  induction levels with
  | zero => exact inner_tooDeep
  | succ levels ih => exact ih.above

/-! ## Statements -/

namespace Rule

variable {levels : Rules}

theorem inner_tableName : tableName.Inner := by
  apply inner_identifier.bind
  intro first
  refine (inner_kind? (by decide)).bind ?_
  intro qualified
  split
  · exact inner_identifier.bind fun table => inner_pure _
  · exact inner_pure _

theorem inner_clause? {α : Type} {word : Keyword} {rule : Rule α} (h : rule.Inner) :
    (clause? word rule).Inner := by
  refine (inner_keyword? word).bind ?_
  intro present
  split
  · exact h.map
  · exact inner_pure none

theorem whole_useBody : useBody.Whole :=
  Whole.bind inner_identifier fun database => whole_terminator (Statement.use database)

theorem whole_selectBody (h : levels.Inner) : (selectBody levels).Whole := by
  have hexpression := inner_expression h
  refine Whole.bind (inner_commaSeparated hexpression) ?_
  intro items
  refine Whole.bind (inner_clause? inner_tableName) ?_
  intro source
  refine Whole.bind (inner_clause? hexpression) ?_
  intro condition
  refine Whole.bind (inner_clause? ((inner_keyword .BY).bind fun _ => hexpression)) ?_
  intro order
  exact whole_terminator _

theorem whole_insertBody (h : levels.Inner) : (insertBody levels).Whole := by
  refine Whole.bind (inner_keyword .INTO) ?_
  intro _
  refine Whole.bind inner_tableName ?_
  intro table
  refine Whole.bind (inner_kind (by decide)) ?_
  intro _
  refine Whole.bind (inner_commaSeparated inner_identifier) ?_
  intro columns
  refine Whole.bind (inner_kind (by decide)) ?_
  intro _
  refine Whole.bind (inner_keyword .VALUES) ?_
  intro _
  exact Whole.bind (inner_tuple h) fun values => whole_terminator _

theorem whole_deleteBody (h : levels.Inner) : (deleteBody levels).Whole := by
  refine Whole.bind (inner_keyword .FROM) ?_
  intro _
  refine Whole.bind inner_tableName ?_
  intro table
  refine Whole.bind (inner_keyword .WHERE) ?_
  intro _
  exact Whole.bind (inner_expression h) fun condition => whole_terminator _

theorem whole_statement (h : levels.Inner) : (statement levels).Whole := by
  refine whole_of_next (statement_eq levels) ?_
  intro next
  unfold statementFrom
  split
  · exact whole_fail _
  · split
    · exact Whole.bind (inner_keyword .USE) fun _ => whole_useBody
    · exact Whole.bind (inner_keyword .SELECT) fun _ => whole_selectBody h
    · exact Whole.bind (inner_keyword .INSERT) fun _ => whole_insertBody h
    · exact Whole.bind (inner_keyword .DELETE) fun _ => whole_deleteBody h
    · split
      · exact whole_fail _
      · exact whole_fail _

end Rule

end SqlForest
