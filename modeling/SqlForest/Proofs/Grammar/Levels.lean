import SqlForest.Proofs.Rule.Sequence

/-!
# Fewer levels only refuse

The rules of fewer levels do what those of more levels do, or fail because an expression is nested
too deeply (`Rule.Shallower`).  `Rules.shallower_ofLevels` proves it by induction on the levels, and
`Rule.shallower_statement` carries it over to statements, so that the number of levels decides
whether a statement is read, but never how.
-/

namespace SqlForest

namespace Rule

variable {α β : Type}

/-- `r` does what `r'` does, or it refuses to nest as deeply. -/
def Shallower (r r' : Rule α) : Prop :=
  ∀ tokens, r tokens = r' tokens ∨ ∃ rest, r tokens = .error ⟨rest, .nestedTooDeeply⟩

/-! ## Sequences -/

theorem Shallower.refl (r : Rule α) : Shallower r r := by
  intro tokens
  exact Or.inl rfl

theorem shallower_tooDeep (r : Rule α) : Shallower (fail .nestedTooDeeply) r := by
  intro tokens
  exact Or.inr ⟨tokens, rfl⟩

theorem Shallower.bind {r r' : Rule α} {f f' : α → Rule β} (hr : Shallower r r')
    (hf : ∀ a, Shallower (f a) (f' a)) : Shallower (r >>= f) (r' >>= f') := by
  intro tokens
  rcases hr tokens with hsame | ⟨rest, hdeep⟩
  · rw [bind_apply, bind_apply, hsame]
    cases r' tokens with
    | ok read => exact hf read.1 read.2
    | error failure => exact Or.inl rfl
  · exact Or.inr ⟨rest, bind_of_error hdeep⟩

/-- The rule for what comes first reads no expressions. -/
theorem Shallower.bind_right (r : Rule α) {f f' : α → Rule β}
    (hf : ∀ a, Shallower (f a) (f' a)) : Shallower (r >>= f) (r >>= f') :=
  (Shallower.refl r).bind hf

theorem Shallower.map {r r' : Rule α} (h : Shallower r r') (f : α → β) :
    Shallower (f <$> r) (f <$> r') := by
  rw [map_eq_pure_bind, map_eq_pure_bind]
  exact h.bind fun _ => .refl _

theorem shallower_of_next {r r' : Rule α} {choose choose' : Option Token → Rule α}
    (hr : ∀ tokens, r tokens = choose tokens.head? tokens)
    (hr' : ∀ tokens, r' tokens = choose' tokens.head? tokens)
    (h : ∀ next, Shallower (choose next) (choose' next)) : Shallower r r' := by
  intro tokens
  rw [hr, hr']
  exact h tokens.head? tokens

theorem shallower_moreItems {item item' : Rule α} (h : Shallower item item')
    (budget : List Token) (read : List α) :
    Shallower (moreItems item budget read) (moreItems item' budget read) := by
  induction budget generalizing read with
  | nil => exact .refl _
  | cons b budget ih =>
    rw [moreItems, moreItems]
    refine Shallower.bind_right _ ?_
    intro found
    cases found with
    | true => exact h.bind fun next => ih (next :: read)
    | false => exact .refl _

theorem shallower_commaSeparated {item item' : Rule α} (h : Shallower item item') :
    Shallower (commaSeparated item) (commaSeparated item') := by
  refine h.bind ?_
  intro first rest
  exact shallower_moreItems h rest [first] rest

end Rule

/-! ## Expressions -/

/-- The rules of a level do what those of another level do, or refuse to nest as deeply. -/
structure Rules.Shallower (rules rules' : Rules) : Prop where
  disjunct : rules.disjunct.Shallower rules'.disjunct
  moreDisjuncts : ∀ left, (rules.moreDisjuncts left).Shallower (rules'.moreDisjuncts left)
  conjunct : rules.conjunct.Shallower rules'.conjunct
  moreConjuncts : ∀ left, (rules.moreConjuncts left).Shallower (rules'.moreConjuncts left)
  comparable : rules.comparable.Shallower rules'.comparable
  moreComparables : ∀ left, (rules.moreComparables left).Shallower (rules'.moreComparables left)
  term : rules.term.Shallower rules'.term
  moreTerms : ∀ left, (rules.moreTerms left).Shallower (rules'.moreTerms left)
  factor : rules.factor.Shallower rules'.factor

namespace Rule

variable {below below' : Rules}

theorem shallower_chain {operator? : Token → Option BinaryOp} {operand : Rules → Rule Expr}
    {more : Rules → Expr → Rule Expr} (hoperand : Shallower (operand below) (operand below'))
    (hmore : ∀ left, Shallower (more below left) (more below' left)) (left : Expr) :
    Shallower (chain below operator? operand more left)
      (chain below' operator? operand more left) := by
  refine Shallower.bind_right _ ?_
  intro found
  cases found with
  | none => exact .refl _
  | some op => exact hoperand.bind fun right => hmore (.binary op left right)

theorem shallower_expression (h : below.Shallower below') :
    Shallower (expression below) (expression below') :=
  h.disjunct.bind fun first => h.moreDisjuncts first

theorem shallower_tuple (h : below.Shallower below') :
    Shallower (tuple below) (tuple below') := by
  refine Shallower.bind_right _ ?_
  intro _
  refine Shallower.bind_right _ ?_
  intro empty
  cases empty with
  | true => exact .refl _
  | false => exact (shallower_commaSeparated (shallower_expression h)).bind fun _ => .refl _

theorem shallower_named (h : below.Shallower below') (name : String) :
    Shallower (named below name) (named below' name) := by
  refine shallower_of_next (named_eq below name) (named_eq below' name) ?_
  intro next
  unfold namedBefore
  split
  · exact .refl _
  · split
    · exact (shallower_tuple h).map _
    · exact .refl _

theorem shallower_closed (h : below.Shallower below') :
    Shallower (closed below) (closed below') :=
  (shallower_expression h).bind fun _ => .refl _

theorem shallower_factor (h : below.Shallower below') :
    Shallower (factor below) (factor below') := by
  refine shallower_of_next (factor_eq below) (factor_eq below') ?_
  intro next
  unfold factorFrom
  split
  · exact .refl _
  · split
    · exact Shallower.bind_right _ fun name => shallower_named h name
    · exact Shallower.bind_right _ fun _ => shallower_closed h
    · split
      · exact Shallower.bind_right _ fun sign => h.factor.map (Expr.unary sign)
      · exact .refl _
    · exact .refl _
    · exact .refl _
    · exact .refl _

theorem shallower_term (h : below.Shallower below') : Shallower (term below) (term below') := by
  refine (shallower_factor h).bind ?_
  intro left
  refine Shallower.bind_right _ ?_
  intro found
  cases found with
  | none => exact .refl _
  | some op => exact h.term.map _

theorem shallower_moreTerms (h : below.Shallower below') (left : Expr) :
    Shallower (moreTerms below left) (moreTerms below' left) :=
  shallower_chain h.term h.moreTerms left

theorem shallower_comparable (h : below.Shallower below') :
    Shallower (comparable below) (comparable below') :=
  (shallower_term h).bind fun first => shallower_moreTerms h first

theorem shallower_moreComparables (h : below.Shallower below') (left : Expr) :
    Shallower (moreComparables below left) (moreComparables below' left) :=
  shallower_chain h.comparable h.moreComparables left

theorem shallower_comparison (h : below.Shallower below') :
    Shallower (comparison below) (comparison below') :=
  (shallower_comparable h).bind fun first => shallower_moreComparables h first

theorem shallower_nullCheck (h : below.Shallower below') :
    Shallower (nullCheck below) (nullCheck below') :=
  (shallower_comparison h).bind fun _ => .refl _

theorem shallower_conjunct (h : below.Shallower below') :
    Shallower (conjunct below) (conjunct below') := by
  refine Shallower.bind_right _ ?_
  intro negated
  cases negated with
  | true => exact h.conjunct.map _
  | false => exact shallower_nullCheck h

theorem shallower_moreConjuncts (h : below.Shallower below') (left : Expr) :
    Shallower (moreConjuncts below left) (moreConjuncts below' left) :=
  shallower_chain h.conjunct h.moreConjuncts left

theorem shallower_disjunct (h : below.Shallower below') :
    Shallower (disjunct below) (disjunct below') :=
  (shallower_conjunct h).bind fun first => shallower_moreConjuncts h first

theorem shallower_moreDisjuncts (h : below.Shallower below') (left : Expr) :
    Shallower (moreDisjuncts below left) (moreDisjuncts below' left) :=
  shallower_chain h.disjunct h.moreDisjuncts left

end Rule

theorem Rules.tooDeep_shallower (rules : Rules) : tooDeep.Shallower rules where
  disjunct := Rule.shallower_tooDeep _
  moreDisjuncts _ := Rule.shallower_tooDeep _
  conjunct := Rule.shallower_tooDeep _
  moreConjuncts _ := Rule.shallower_tooDeep _
  comparable := Rule.shallower_tooDeep _
  moreComparables _ := Rule.shallower_tooDeep _
  term := Rule.shallower_tooDeep _
  moreTerms _ := Rule.shallower_tooDeep _
  factor := Rule.shallower_tooDeep _

theorem Rules.Shallower.above {below below' : Rules} (h : below.Shallower below') :
    (Rules.above below).Shallower (Rules.above below') where
  disjunct := Rule.shallower_disjunct h
  moreDisjuncts := Rule.shallower_moreDisjuncts h
  conjunct := Rule.shallower_conjunct h
  moreConjuncts := Rule.shallower_moreConjuncts h
  comparable := Rule.shallower_comparable h
  moreComparables := Rule.shallower_moreComparables h
  term := Rule.shallower_term h
  moreTerms := Rule.shallower_moreTerms h
  factor := Rule.shallower_factor h

theorem Rules.shallower_ofLevels {levels more : Nat} (h : levels ≤ more) :
    (ofLevels levels).Shallower (ofLevels more) := by
  induction levels generalizing more with
  | zero => exact tooDeep_shallower _
  | succ levels ih =>
    cases more with
    | zero => exact absurd h (Nat.not_succ_le_zero levels)
    | succ more => exact (ih (Nat.le_of_succ_le_succ h)).above

/-! ## Statements -/

namespace Rule

variable {levels more : Rules}

theorem shallower_clause? {α : Type} {word : Keyword} {rule rule' : Rule α}
    (h : Shallower rule rule') : Shallower (clause? word rule) (clause? word rule') := by
  refine Shallower.bind_right _ ?_
  intro present
  cases present with
  | true => exact h.map _
  | false => exact .refl _

theorem shallower_selectBody (h : levels.Shallower more) :
    Shallower (selectBody levels) (selectBody more) := by
  have hexpression := shallower_expression h
  refine (shallower_commaSeparated hexpression).bind ?_
  intro items
  refine Shallower.bind_right _ ?_
  intro source
  refine (shallower_clause? hexpression).bind ?_
  intro condition
  exact (shallower_clause? (Shallower.bind_right _ fun _ => hexpression)).bind fun _ => .refl _

theorem shallower_insertBody (h : levels.Shallower more) :
    Shallower (insertBody levels) (insertBody more) := by
  refine Shallower.bind_right _ fun _ => ?_
  refine Shallower.bind_right _ fun _ => ?_
  refine Shallower.bind_right _ fun _ => ?_
  refine Shallower.bind_right _ fun _ => ?_
  refine Shallower.bind_right _ fun _ => ?_
  refine Shallower.bind_right _ fun _ => ?_
  exact (shallower_tuple h).bind fun _ => .refl _

theorem shallower_deleteBody (h : levels.Shallower more) :
    Shallower (deleteBody levels) (deleteBody more) := by
  refine Shallower.bind_right _ fun _ => ?_
  refine Shallower.bind_right _ fun _ => ?_
  refine Shallower.bind_right _ fun _ => ?_
  exact (shallower_expression h).bind fun _ => .refl _

theorem shallower_statement (h : levels.Shallower more) :
    Shallower (statement levels) (statement more) := by
  refine shallower_of_next (statement_eq levels) (statement_eq more) ?_
  intro next
  unfold statementFrom
  split
  · exact .refl _
  · split
    · exact .refl _
    · exact Shallower.bind_right _ fun _ => shallower_selectBody h
    · exact Shallower.bind_right _ fun _ => shallower_insertBody h
    · exact Shallower.bind_right _ fun _ => shallower_deleteBody h
    · exact .refl _

end Rule

end SqlForest
