import SqlForest.Proofs.Grammar.Lookahead
import SqlForest.Proofs.Grammar.Soundness

/-!
# A level costs a token

Between one level and the next a token is read: a sign, a negation, a parenthesis or an operator.
So rules of so many levels refuse to nest only behind that many tokens (`Rule.Spends`,
`Rules.spend_ofLevels`), and as many levels as there are tokens are enough for all of them
(`Rule.statement_enough`).
-/

namespace SqlForest

open Grammar

namespace Rule

variable {α β : Type} {count : Nat}

/-- Before `r` refuses to nest any deeper it reads so many tokens. -/
def Spends (count : Nat) (r : Rule α) : Prop :=
  ∀ tokens rest, r tokens = .error ⟨rest, .nestedTooDeeply⟩ → count + rest.length ≤ tokens.length

theorem Spends.mono {more : Nat} {r : Rule α} (h : Spends more r) (hle : count ≤ more) :
    Spends count r := by
  intro tokens rest hr
  have := h tokens rest hr
  omega

theorem spends_tooDeep : Spends 0 (fail .nestedTooDeeply : Rule α) := by
  intro tokens rest hr
  cases hr
  omega

/-! ## Rules that do not nest -/

theorem spends_pure (a : α) : Spends count (pure a : Rule α) := by
  intro tokens rest hr
  cases hr

theorem spends_fail {fault : SyntaxFault} (h : fault ≠ .nestedTooDeeply) :
    Spends count (fail fault : Rule α) := by
  intro tokens rest hr
  cases hr
  exact absurd rfl h

theorem spends_accept? (f : Token → Option α) : Spends count (accept? f) := by
  intro tokens rest hr
  cases tokens with
  | nil => cases hr
  | cons t tokens =>
    rw [accept?_cons] at hr
    cases hr

theorem spends_require (f : Token → Option α) (what : Expectation) :
    Spends count (require f what) := by
  intro tokens rest hr
  cases tokens with
  | nil => cases hr
  | cons t tokens =>
    unfold require at hr
    cases hf : f t with
    | none => simp [hf] at hr
    | some a => simp [hf] at hr

/-! ## Sequences -/

theorem Spends.bind {r : Rule α} {f : α → Rule β} (hr : Spends count r) (hinner : Inner r)
    (hf : ∀ a, Spends count (f a)) : Spends count (r >>= f) := by
  intro tokens rest h
  rcases bind_eq_error.mp h with hfail | ⟨a, middle, hread, hfail⟩
  · exact hr tokens rest hfail
  · have hmiddle := hinner.length_le hread
    have hrest := hf a middle rest hfail
    omega

theorem Spends.map {r : Rule α} (h : Spends count r) (f : α → β) : Spends count (f <$> r) := by
  intro tokens rest hr
  exact h tokens rest (map_eq_error.mp hr)

/-- A token that must come next is one more. -/
theorem Spends.behind {f : Token → Option α} {what : Expectation} {g : α → Rule β}
    (hg : ∀ a, Spends count (g a)) : Spends (count + 1) (require f what >>= g) := by
  intro tokens rest h
  rcases bind_eq_error.mp h with hfail | ⟨a, middle, hread, hfail⟩
  · exact spends_require f what tokens rest hfail
  · obtain ⟨t, rfl, -⟩ := require_eq_ok.mp hread
    have hrest := hg a middle rest hfail
    rw [List.length_cons]
    omega

/-- A token that may come next is one more if it does. -/
theorem Spends.perhapsBehind {f : Token → Option α} {g : Option α → Rule β}
    (hsome : ∀ a, Spends count (g (some a))) (hnone : Spends (count + 1) (g none)) :
    Spends (count + 1) (accept? f >>= g) := by
  intro tokens rest h
  cases tokens with
  | nil =>
    rw [accept?_bind_refused (refused_nil f)] at h
    exact hnone [] rest h
  | cons t tokens =>
    cases hf : f t with
    | none =>
      rw [accept?_bind_refused (refused_cons hf tokens)] at h
      exact hnone (t :: tokens) rest h
    | some a =>
      rw [accept?_bind_cons hf] at h
      have hrest := hsome a tokens rest h
      rw [List.length_cons]
      omega

theorem spends_of_next {r : Rule α} {s : Option Token → Rule α}
    (hr : ∀ tokens, r tokens = s tokens.head? tokens) (hs : ∀ next, Spends count (s next)) :
    Spends count r := by
  intro tokens rest h
  rw [hr] at h
  exact hs tokens.head? tokens rest h

theorem spends_moreItems {item : Rule α} (h : Spends count item) (hinner : Inner item)
    (budget : List Token) (read : List α) : Spends count (moreItems item budget read) := by
  induction budget generalizing read with
  | nil => exact spends_pure _
  | cons b budget ih =>
    rw [moreItems]
    refine Spends.bind ((spends_accept? _).map _) (inner_kind? (by decide)) ?_
    intro comma
    cases comma with
    | true => exact h.bind hinner fun next => ih (next :: read)
    | false => exact spends_pure _

theorem spends_commaSeparated {item : Rule α} (h : Spends count item) (hinner : Inner item) :
    Spends count (commaSeparated item) := by
  refine h.bind hinner ?_
  intro first tokens rest hr
  exact spends_moreItems h hinner tokens [first] tokens rest hr

end Rule

/-! ## Expressions -/

/-- The rules of a level read so many tokens before they refuse to nest any deeper. -/
structure Rules.Spend (count : Nat) (rules : Rules) : Prop where
  inner : rules.Inner
  operand : ∀ c : Chain, (c.operandOf rules).Spends count
  more : ∀ (c : Chain) (left : Expr), (c.moreOf rules left).Spends count
  factor : rules.factor.Spends count

namespace Rule

variable {below : Rules} {count : Nat}

theorem spends_expression (h : below.Spend count) : Spends count (expression below) :=
  (h.operand .disjunction).bind h.inner.disjunct fun first => h.more .disjunction first

/-- Each further operand is behind an operator. -/
theorem spends_more (h : below.Spend count) (c : Chain) (left : Expr) :
    Spends (count + 1) (c.more below left) := by
  have hinner : Inner (c.operandOf below) := by
    cases c with
    | disjunction => exact h.inner.disjunct
    | conjunction => exact h.inner.conjunct
    | comparison => exact h.inner.comparable
    | sum => exact h.inner.term
  refine Spends.perhapsBehind ?_ (spends_pure left)
  intro op
  exact (h.operand c).bind hinner fun right => h.more c (.binary op left right)

theorem spends_tuple (h : below.Spend count) : Spends (count + 1) (tuple below) := by
  have hexpression := inner_expression h.inner
  refine Spends.behind ?_
  intro _
  refine Spends.bind ((spends_accept? _).map _) (inner_kind? (by decide)) ?_
  intro empty
  cases empty with
  | true => exact spends_pure []
  | false =>
    refine (spends_commaSeparated (spends_expression h) hexpression).bind
      (inner_commaSeparated hexpression) ?_
    intro items
    exact (spends_require _ _).bind (inner_kind (by decide)) fun _ => spends_pure items

theorem spends_named (h : below.Spend count) (name : String) :
    Spends (count + 1) (named below name) := by
  refine spends_of_next (named_eq below name) ?_
  intro next
  unfold namedBefore
  split
  · exact spends_pure _
  · split
    · exact (spends_tuple h).map _
    · exact spends_pure _

theorem spends_closed (h : below.Spend count) : Spends count (closed below) := by
  refine (spends_expression h).bind (inner_expression h.inner) ?_
  intro inner
  exact (spends_require _ _).bind (inner_kind (by decide)) fun _ => spends_pure inner

theorem spends_factor (h : below.Spend count) : Spends (count + 1) (factor below) := by
  have hexpected : SyntaxFault.expected .expression ≠ .nestedTooDeeply := by decide
  refine spends_of_next (factor_eq below) ?_
  intro next
  unfold factorFrom
  split
  · exact spends_fail hexpected
  · split
    · exact Spends.behind fun name => (spends_named h name).mono (Nat.le_succ count)
    · exact Spends.behind fun _ => spends_closed h
    · split
      · exact Spends.behind fun sign => h.factor.map _
      · exact spends_fail (by decide)
    · split
      · exact Spends.behind fun value => spends_pure _
      · exact spends_fail (by decide)
    · exact Spends.behind fun body => spends_pure _
    · exact spends_fail hexpected

theorem spends_term (h : below.Spend count) : Spends (count + 1) (term below) := by
  refine (spends_factor h).bind (inner_factor h.inner) ?_
  intro left
  refine Spends.perhapsBehind ?_ (spends_pure left)
  intro op
  exact (h.operand .sum).map _

theorem spends_chain (h : below.Spend count) (c : Chain) (hinner : (c.operand.rule below).Inner)
    (hoperand : (c.operand.rule below).Spends (count + 1)) :
    (c.rule below).Spends (count + 1) :=
  hoperand.bind hinner fun first => spends_more h c first

theorem spends_comparable (h : below.Spend count) : Spends (count + 1) (comparable below) :=
  spends_chain h .sum (inner_term h.inner) (spends_term h)

theorem spends_comparison (h : below.Spend count) : Spends (count + 1) (comparison below) :=
  spends_chain h .comparison (inner_comparable h.inner) (spends_comparable h)

theorem spends_nullCheck (h : below.Spend count) : Spends (count + 1) (nullCheck below) := by
  refine (spends_comparison h).bind (inner_comparison h.inner) ?_
  intro operand
  refine Spends.bind ((spends_accept? _).map _) (inner_keyword? .IS) ?_
  intro checked
  cases checked with
  | true =>
    refine Spends.bind ((spends_accept? _).map _) (inner_keyword? .NOT) ?_
    intro negated
    exact (spends_require _ _).bind (inner_keyword .NULL) fun _ => spends_pure _
  | false => exact spends_pure operand

theorem spends_conjunct (h : below.Spend count) : Spends (count + 1) (conjunct below) := by
  unfold conjunct keyword?
  rw [isSome_bind]
  refine Spends.perhapsBehind ?_ (spends_nullCheck h)
  intro _
  exact (h.operand .conjunction).map _

theorem spends_disjunct (h : below.Spend count) : Spends (count + 1) (disjunct below) :=
  spends_chain h .conjunction (inner_conjunct h.inner) (spends_conjunct h)

end Rule

namespace Rules

theorem spend_tooDeep : tooDeep.Spend 0 where
  inner := inner_tooDeep
  operand c := by
    rw [Chain.operandOf_tooDeep]
    exact Rule.spends_tooDeep
  more c left := by
    rw [Chain.moreOf_tooDeep]
    exact Rule.spends_tooDeep
  factor := Rule.spends_tooDeep

theorem Spend.above {below : Rules} {count : Nat} (h : below.Spend count) :
    (Rules.above below).Spend (count + 1) where
  inner := h.inner.above
  operand c := by
    cases c with
    | disjunction => exact Rule.spends_disjunct h
    | conjunction => exact Rule.spends_conjunct h
    | comparison => exact Rule.spends_comparable h
    | sum => exact Rule.spends_term h
  more c left := by
    rw [Chain.moreOf_above]
    exact Rule.spends_more h c left
  factor := Rule.spends_factor h

theorem spend_ofLevels (levels : Nat) : (ofLevels levels).Spend levels := by
  induction levels with
  | zero => exact spend_tooDeep
  | succ levels ih => exact ih.above

end Rules

/-! ## Statements -/

namespace Rule

variable {levels : Rules} {count : Nat}

theorem spends_terminator {α : Type} (a : α) : Spends count (terminator >>= fun _ => pure a) := by
  rw [terminator_bind]
  intro tokens rest h
  rcases bind_eq_error.mp h with hfail | ⟨_, _, _, hfail⟩
  · exact spends_require _ _ tokens rest hfail
  · cases hfail

theorem spends_kind (k : TokenKind) : Spends count (kind k) :=
  spends_require _ _

theorem spends_identifier : Spends count identifier :=
  spends_kind .identifier

theorem spends_tableName : Spends count tableName := by
  refine spends_identifier.bind inner_identifier ?_
  intro first
  refine Spends.bind ((spends_accept? _).map _) (inner_kind? (by decide)) ?_
  intro qualified
  cases qualified with
  | true => exact spends_identifier.bind inner_identifier fun table => spends_pure _
  | false => exact spends_pure _

theorem spends_clause? {α : Type} {word : Keyword} {rule : Rule α} (h : Spends count rule) :
    Spends count (clause? word rule) := by
  refine Spends.bind ((spends_accept? _).map _) (inner_keyword? word) ?_
  intro present
  cases present with
  | true => exact h.map _
  | false => exact spends_pure none

theorem spends_useBody : Spends count useBody :=
  spends_identifier.bind inner_identifier fun _ => spends_terminator _

theorem spends_selectBody (h : levels.Spend count) : Spends count (selectBody levels) := by
  have hexpression := spends_expression h
  have hinner := inner_expression h.inner
  have hby : Spends count (keyword .BY >>= fun _ => expression levels) :=
    (spends_require _ _).bind (inner_keyword .BY) fun _ => hexpression
  refine (spends_commaSeparated hexpression hinner).bind (inner_commaSeparated hinner) ?_
  intro items
  refine (spends_clause? spends_tableName).bind (inner_clause? inner_tableName) ?_
  intro source
  refine (spends_clause? hexpression).bind (inner_clause? hinner) ?_
  intro condition
  refine (spends_clause? hby).bind (inner_clause? ((inner_keyword .BY).bind fun _ => hinner)) ?_
  intro order
  exact spends_terminator _

theorem spends_insertBody (h : levels.Spend count) : Spends count (insertBody levels) := by
  refine (spends_require _ _).bind (inner_keyword .INTO) ?_
  intro _
  refine spends_tableName.bind inner_tableName ?_
  intro table
  refine (spends_kind _).bind (inner_kind (by decide)) ?_
  intro _
  refine (spends_commaSeparated spends_identifier inner_identifier).bind
    (inner_commaSeparated inner_identifier) ?_
  intro columns
  refine (spends_kind _).bind (inner_kind (by decide)) ?_
  intro _
  refine (spends_require _ _).bind (inner_keyword .VALUES) ?_
  intro _
  refine ((spends_tuple h).mono (Nat.le_succ count)).bind (inner_tuple h.inner) ?_
  intro values
  exact spends_terminator _

theorem spends_deleteBody (h : levels.Spend count) : Spends count (deleteBody levels) := by
  refine (spends_require _ _).bind (inner_keyword .FROM) ?_
  intro _
  refine spends_tableName.bind inner_tableName ?_
  intro table
  refine (spends_require _ _).bind (inner_keyword .WHERE) ?_
  intro _
  refine (spends_expression h).bind (inner_expression h.inner) ?_
  intro condition
  exact spends_terminator _

theorem spends_statement (h : levels.Spend count) : Spends count (statement levels) := by
  refine spends_of_next (statement_eq levels) ?_
  intro next
  unfold statementFrom
  split
  · exact spends_fail (by decide)
  · split
    · exact (spends_require _ _).bind (inner_keyword .USE) fun _ => spends_useBody
    · exact (spends_require _ _).bind (inner_keyword .SELECT) fun _ => spends_selectBody h
    · exact (spends_require _ _).bind (inner_keyword .INSERT) fun _ => spends_insertBody h
    · exact (spends_require _ _).bind (inner_keyword .DELETE) fun _ => spends_deleteBody h
    · split
      · exact spends_fail (by decide)
      · exact spends_fail (by decide)

/-- More levels than tokens are enough for any statement. -/
theorem statement_enough {tokens : List Token} {levels : Nat} (h : tokens.length < levels)
    (rest : List Token) :
    statement (Rules.ofLevels levels) tokens ≠ .error ⟨rest, .nestedTooDeeply⟩ := by
  intro hr
  have := spends_statement (Rules.spend_ofLevels levels) tokens rest hr
  omega

end Rule

end SqlForest
