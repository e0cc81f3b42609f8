import SqlForest.Proofs.Rule.Naturality

/-!
# The grammar on changed tokens

Tokens whose names are changed, and that are moved in any way, are read into the same trees with
their names changed, and fail at the same token for the same reason.  `Rules.natural_ofLevels` shows
this of the rules for expressions by induction on the levels, and `Rule.carries_statement` of the
rule for statements.
-/

namespace SqlForest

/-! ## Changed names -/

namespace Expr

mutual

/-- The tree with every name changed. -/
def rename (n : String → String) : Expr → Expr
  | identifier name => identifier (n name)
  | number value => number value
  | string body => string body
  | call name arguments => call (n name) (renameAll n arguments)
  | binary op left right => binary op (rename n left) (rename n right)
  | unary op operand => unary op (rename n operand)
  | nullCheck operand negated => nullCheck (rename n operand) negated

/-- The trees with every name changed. -/
def renameAll (n : String → String) : List Expr → List Expr
  | [] => []
  | e :: es => rename n e :: renameAll n es

end

theorem renameAll_eq_map (n : String → String) (es : List Expr) :
    renameAll n es = es.map (rename n) := by
  induction es with
  | nil => rfl
  | cons e es ih => rw [renameAll, ih, List.map_cons]

mutual

theorem rename_id : (e : Expr) → rename id e = e
  | identifier _ | number _ | string _ => rfl
  | call name arguments => by rw [rename, renameAll_id arguments, id]
  | binary op left right => by rw [rename, rename_id left, rename_id right]
  | unary op operand => by rw [rename, rename_id operand]
  | nullCheck operand negated => by rw [rename, rename_id operand]

theorem renameAll_id : (es : List Expr) → renameAll id es = es
  | [] => rfl
  | e :: es => by rw [renameAll, rename_id e, renameAll_id es]

end

end Expr

/-- The table with its names changed. -/
def TableName.rename (n : String → String) (t : TableName) : TableName :=
  ⟨t.database.map n, n t.table⟩

/-- The statement with every name changed. -/
def Statement.rename (n : String → String) : Statement → Statement
  | use database => use (n database)
  | select query =>
    select ⟨query.items.map (Expr.rename n), query.source.map (TableName.rename n),
      query.condition.map (Expr.rename n), query.order.map (Expr.rename n)⟩
  | insert insertion =>
    insert ⟨insertion.table.rename n, insertion.columns.map n,
      insertion.values.map (Expr.rename n)⟩
  | delete deletion => delete ⟨deletion.table.rename n, deletion.condition.rename n⟩

theorem TableName.rename_id (t : TableName) : t.rename id = t := by
  rw [rename, Option.map_id]
  rfl

theorem Statement.rename_id (s : Statement) : s.rename id = s := by
  have hexpr : Expr.rename id = id := funext Expr.rename_id
  have htable : TableName.rename id = id := funext TableName.rename_id
  cases s with
  | use database => rfl
  | select query => simp only [rename, hexpr, htable, List.map_id, Option.map_id, id]
  | insert insertion => simp only [rename, hexpr, htable, List.map_id, id]
  | delete deletion => simp only [rename, hexpr, htable, id]

/-! ## Expressions -/

/-- The rules of a level do not care whether tokens are changed before or after. -/
structure Rules.Natural (f : Token → Token) (n : String → String) (rules : Rules) : Prop where
  disjunct : Rule.Carries f (Expr.rename n) rules.disjunct rules.disjunct
  moreDisjuncts : ∀ left, Rule.Carries f (Expr.rename n) (rules.moreDisjuncts left)
    (rules.moreDisjuncts (left.rename n))
  conjunct : Rule.Carries f (Expr.rename n) rules.conjunct rules.conjunct
  moreConjuncts : ∀ left, Rule.Carries f (Expr.rename n) (rules.moreConjuncts left)
    (rules.moreConjuncts (left.rename n))
  comparable : Rule.Carries f (Expr.rename n) rules.comparable rules.comparable
  moreComparables : ∀ left, Rule.Carries f (Expr.rename n) (rules.moreComparables left)
    (rules.moreComparables (left.rename n))
  term : Rule.Carries f (Expr.rename n) rules.term rules.term
  moreTerms : ∀ left, Rule.Carries f (Expr.rename n) (rules.moreTerms left)
    (rules.moreTerms (left.rename n))
  factor : Rule.Carries f (Expr.rename n) rules.factor rules.factor

namespace Rule

variable {f : Token → Token} {n : String → String} {below : Rules}

theorem carries_accept_operator? {operator? : Token → Option BinaryOp}
    (ho : ∀ t, operator? (f t) = operator? t) :
    Carries f (Option.map id) (accept? operator?) (accept? operator?) := by
  refine carries_accept? ?_
  intro t
  rw [ho t, Option.map_id, id]

theorem carries_chain {operator? : Token → Option BinaryOp} {operand : Rules → Rule Expr}
    {more : Rules → Expr → Rule Expr} (ho : ∀ t, operator? (f t) = operator? t)
    (hoperand : Carries f (Expr.rename n) (operand below) (operand below))
    (hmore : ∀ left, Carries f (Expr.rename n) (more below left) (more below (left.rename n)))
    (left : Expr) :
    Carries f (Expr.rename n) (chain below operator? operand more left)
      (chain below operator? operand more (left.rename n)) := by
  refine (carries_accept_operator? ho).bind ?_
  intro found
  cases found with
  | none => exact carries_pure left
  | some op => exact hoperand.bind fun right => hmore (.binary op left right)

theorem carries_expression (h : below.Natural f n) :
    Carries f (Expr.rename n) (expression below) (expression below) :=
  h.disjunct.bind fun first => h.moreDisjuncts first

theorem carries_tuple (hf : Token.Renames f n) (h : below.Natural f n) :
    Carries f (List.map (Expr.rename n)) (tuple below) (tuple below) := by
  refine (carries_kind hf (by decide)).bind ?_
  intro _
  refine (carries_kind? hf .rightParen).bind ?_
  intro empty
  cases empty with
  | true => exact carries_pure []
  | false =>
    refine (carries_commaSeparated hf (carries_expression h)).bind ?_
    intro items
    exact (carries_kind hf (by decide)).bind fun _ => carries_pure items

theorem carries_named (hf : Token.Renames f n) (h : below.Natural f n) (name : String) :
    Carries f (Expr.rename n) (named below name) (named below (n name)) := by
  refine carries_of_next (named_eq below name) (named_eq below (n name)) ?_
  intro next
  cases next with
  | none => exact carries_pure (Expr.identifier name)
  | some t =>
    rw [Option.map_some, namedBefore, namedBefore, hf.kind t]
    by_cases ht : t.kind = .leftParen
    · rw [if_pos ht, if_pos ht]
      refine (carries_tuple hf h).map ?_
      intro arguments
      rw [Expr.rename, Expr.renameAll_eq_map]
    · rw [if_neg ht, if_neg ht]
      exact carries_pure (Expr.identifier name)

theorem carries_closed (hf : Token.Renames f n) (h : below.Natural f n) :
    Carries f (Expr.rename n) (closed below) (closed below) := by
  refine (carries_expression h).bind ?_
  intro inner
  exact (carries_kind hf (by decide)).bind fun _ => carries_pure inner

theorem sign?_of_renames (hf : Token.Renames f n) (t : Token) : sign? (f t) = sign? t := by
  unfold sign?
  rw [hf.kind t]
  by_cases hk : t.kind = .operator
  · rw [if_pos hk, if_pos hk, hf.lexeme t (by rw [hk]; decide)]
  · rw [if_neg hk, if_neg hk]

theorem integer?_of_renames (hf : Token.Renames f n) (t : Token) :
    integer? (f t) = integer? t := by
  unfold integer?
  rw [hf.kind t]
  by_cases hk : t.kind = .number
  · rw [if_pos hk, if_pos hk, hf.lexeme t (by rw [hk]; decide)]
  · rw [if_neg hk, if_neg hk]

theorem carries_factor (hf : Token.Renames f n) (h : below.Natural f n) :
    Carries f (Expr.rename n) (factor below) (factor below) := by
  refine carries_of_next (factor_eq below) (factor_eq below) ?_
  intro next
  cases next with
  | none => exact carries_fail _
  | some t =>
    rw [Option.map_some, factorFrom, factorFrom, hf.kind t]
    cases hk : t.kind with
    | identifier => exact (carries_identifier hf).bind fun name => carries_named hf h name
    | leftParen => exact (carries_kind hf (by decide)).bind fun _ => carries_closed hf h
    | operator =>
      have hlexeme : (f t).lexeme = t.lexeme := hf.lexeme t (by rw [hk]; decide)
      rw [hlexeme]
      dsimp only
      split
      · have hsign : Carries f id (require sign? (.kind .operator))
            (require sign? (.kind .operator)) := by
          refine carries_require ?_
          intro t
          rw [sign?_of_renames hf, Option.map_id, id]
        exact hsign.bind fun sign => h.factor.map fun operand => rfl
      · exact carries_fail _
    | number =>
      have hlexeme : (f t).lexeme = t.lexeme := hf.lexeme t (by rw [hk]; decide)
      rw [hlexeme]
      dsimp only
      split
      · have hvalue : Carries f id (require integer? (.kind .number))
            (require integer? (.kind .number)) := by
          refine carries_require ?_
          intro t
          rw [integer?_of_renames hf, Option.map_id, id]
        exact hvalue.bind fun value => carries_pure (Expr.number value)
      · exact carries_fail _
    | string => exact (carries_kind hf (by decide)).bind fun body => carries_pure (Expr.string body)
    | _ => exact carries_fail _

theorem carries_term (hf : Token.Renames f n) (h : below.Natural f n) :
    Carries f (Expr.rename n) (term below) (term below) := by
  refine (carries_factor hf h).bind ?_
  intro left
  refine (carries_accept_operator? (hf.operator?_eq _)).bind ?_
  intro found
  cases found with
  | none => exact carries_pure left
  | some op => exact h.term.map fun right => rfl

theorem carries_moreTerms (hf : Token.Renames f n) (h : below.Natural f n) (left : Expr) :
    Carries f (Expr.rename n) (moreTerms below left) (moreTerms below (left.rename n)) :=
  carries_chain (hf.operator?_eq _) h.term h.moreTerms left

theorem carries_comparable (hf : Token.Renames f n) (h : below.Natural f n) :
    Carries f (Expr.rename n) (comparable below) (comparable below) :=
  (carries_term hf h).bind fun first => carries_moreTerms hf h first

theorem carries_moreComparables (hf : Token.Renames f n) (h : below.Natural f n) (left : Expr) :
    Carries f (Expr.rename n) (moreComparables below left)
      (moreComparables below (left.rename n)) :=
  carries_chain (hf.operator?_eq _) h.comparable h.moreComparables left

theorem carries_comparison (hf : Token.Renames f n) (h : below.Natural f n) :
    Carries f (Expr.rename n) (comparison below) (comparison below) :=
  (carries_comparable hf h).bind fun first => carries_moreComparables hf h first

theorem carries_nullCheck (hf : Token.Renames f n) (h : below.Natural f n) :
    Carries f (Expr.rename n) (nullCheck below) (nullCheck below) := by
  refine (carries_comparison hf h).bind ?_
  intro operand
  refine (carries_keyword? hf .IS).bind ?_
  intro checked
  cases checked with
  | true =>
    refine (carries_keyword? hf .NOT).bind ?_
    intro negated
    exact (carries_keyword hf .NULL).bind fun _ => carries_pure (Expr.nullCheck operand negated)
  | false => exact carries_pure operand

theorem carries_conjunct (hf : Token.Renames f n) (h : below.Natural f n) :
    Carries f (Expr.rename n) (conjunct below) (conjunct below) := by
  refine (carries_keyword? hf .NOT).bind ?_
  intro negated
  cases negated with
  | true => exact h.conjunct.map fun operand => rfl
  | false => exact carries_nullCheck hf h

theorem carries_moreConjuncts (hf : Token.Renames f n) (h : below.Natural f n) (left : Expr) :
    Carries f (Expr.rename n) (moreConjuncts below left) (moreConjuncts below (left.rename n)) :=
  carries_chain hf.conjunction?_eq h.conjunct h.moreConjuncts left

theorem carries_disjunct (hf : Token.Renames f n) (h : below.Natural f n) :
    Carries f (Expr.rename n) (disjunct below) (disjunct below) :=
  (carries_conjunct hf h).bind fun first => carries_moreConjuncts hf h first

theorem carries_moreDisjuncts (hf : Token.Renames f n) (h : below.Natural f n) (left : Expr) :
    Carries f (Expr.rename n) (moreDisjuncts below left) (moreDisjuncts below (left.rename n)) :=
  carries_chain hf.disjunction?_eq h.disjunct h.moreDisjuncts left

end Rule

section Levels

variable {f : Token → Token} {n : String → String}

theorem Rules.natural_tooDeep : Rules.tooDeep.Natural f n where
  disjunct := Rule.carries_fail _
  moreDisjuncts _ := Rule.carries_fail _
  conjunct := Rule.carries_fail _
  moreConjuncts _ := Rule.carries_fail _
  comparable := Rule.carries_fail _
  moreComparables _ := Rule.carries_fail _
  term := Rule.carries_fail _
  moreTerms _ := Rule.carries_fail _
  factor := Rule.carries_fail _

theorem Rules.Natural.above (hf : Token.Renames f n) {below : Rules} (h : below.Natural f n) :
    (Rules.above below).Natural f n where
  disjunct := Rule.carries_disjunct hf h
  moreDisjuncts := Rule.carries_moreDisjuncts hf h
  conjunct := Rule.carries_conjunct hf h
  moreConjuncts := Rule.carries_moreConjuncts hf h
  comparable := Rule.carries_comparable hf h
  moreComparables := Rule.carries_moreComparables hf h
  term := Rule.carries_term hf h
  moreTerms := Rule.carries_moreTerms hf h
  factor := Rule.carries_factor hf h

theorem Rules.natural_ofLevels (hf : Token.Renames f n) (levels : Nat) :
    (Rules.ofLevels levels).Natural f n := by
  induction levels with
  | zero => exact natural_tooDeep
  | succ levels ih => exact ih.above hf

end Levels

/-! ## Statements -/

namespace Rule

variable {f : Token → Token} {n : String → String} {levels : Rules}

theorem carries_tableName (hf : Token.Renames f n) :
    Carries f (TableName.rename n) tableName tableName := by
  refine (carries_identifier hf).bind ?_
  intro first
  refine (carries_kind? hf .period).bind ?_
  intro qualified
  cases qualified with
  | true =>
    refine (carries_identifier hf).bind ?_
    intro table
    exact carries_pure (TableName.mk (some first) table)
  | false => exact carries_pure (TableName.mk none first)

theorem carries_clause? (hf : Token.Renames f n) {α β : Type} {g : α → β} {word : Keyword}
    {rule : Rule α} {rule' : Rule β} (h : Carries f g rule rule') :
    Carries f (Option.map g) (clause? word rule) (clause? word rule') := by
  refine (carries_keyword? hf word).bind ?_
  intro present
  cases present with
  | true => exact h.map fun value => rfl
  | false => exact carries_pure none

theorem carries_terminator (hf : Token.Renames f n) : Carries f id terminator terminator :=
  (carries_kind hf (by decide)).bind fun _ => carries_pure ()

theorem carries_useBody (hf : Token.Renames f n) :
    Carries f (Statement.rename n) useBody useBody := by
  refine (carries_identifier hf).bind ?_
  intro database
  exact (carries_terminator hf).bind fun _ => carries_pure (Statement.use database)

theorem carries_selectBody (hf : Token.Renames f n) (h : levels.Natural f n) :
    Carries f (Statement.rename n) (selectBody levels) (selectBody levels) := by
  have hexpression := carries_expression h
  refine (carries_commaSeparated hf hexpression).bind ?_
  intro items
  refine (carries_clause? hf (carries_tableName hf)).bind ?_
  intro source
  refine (carries_clause? hf hexpression).bind ?_
  intro condition
  refine (carries_clause? hf ((carries_keyword hf .BY).bind fun _ => hexpression)).bind ?_
  intro order
  exact (carries_terminator hf).bind fun _ =>
    carries_pure (Statement.select ⟨items, source, condition, order⟩)

theorem carries_insertBody (hf : Token.Renames f n) (h : levels.Natural f n) :
    Carries f (Statement.rename n) (insertBody levels) (insertBody levels) := by
  refine (carries_keyword hf .INTO).bind ?_
  intro _
  refine (carries_tableName hf).bind ?_
  intro table
  refine (carries_kind hf (by decide)).bind ?_
  intro _
  refine (carries_commaSeparated hf (carries_identifier hf)).bind ?_
  intro columns
  refine (carries_kind hf (by decide)).bind ?_
  intro _
  refine (carries_keyword hf .VALUES).bind ?_
  intro _
  refine (carries_tuple hf h).bind ?_
  intro values
  exact (carries_terminator hf).bind fun _ =>
    carries_pure (Statement.insert ⟨table, columns, values⟩)

theorem carries_deleteBody (hf : Token.Renames f n) (h : levels.Natural f n) :
    Carries f (Statement.rename n) (deleteBody levels) (deleteBody levels) := by
  refine (carries_keyword hf .FROM).bind ?_
  intro _
  refine (carries_tableName hf).bind ?_
  intro table
  refine (carries_keyword hf .WHERE).bind ?_
  intro _
  refine (carries_expression h).bind ?_
  intro condition
  exact (carries_terminator hf).bind fun _ => carries_pure (Statement.delete ⟨table, condition⟩)

theorem carries_statement (hf : Token.Renames f n) (h : levels.Natural f n) :
    Carries f (Statement.rename n) (statement levels) (statement levels) := by
  refine carries_of_next (statement_eq levels) (statement_eq levels) ?_
  intro next
  cases next with
  | none => exact carries_fail _
  | some t =>
    rw [Option.map_some, statementFrom, statementFrom, hf.keyword?_eq t, hf.kind t]
    split
    · exact (carries_keyword hf .USE).bind fun _ => carries_useBody hf
    · exact (carries_keyword hf .SELECT).bind fun _ => carries_selectBody hf h
    · exact (carries_keyword hf .INSERT).bind fun _ => carries_insertBody hf h
    · exact (carries_keyword hf .DELETE).bind fun _ => carries_deleteBody hf h
    · split
      · exact carries_fail _
      · exact carries_fail _

end Rule

end SqlForest
