import SqlForest.Proofs.Grammar.Derivation
import SqlForest.Proofs.Rule.Language

/-!
# Rules read what derives

`Phrase.rule` and `Chain.rule` name the rule for each kind of phrase.  The rules of a level follow
the derivations at that level (`follow_ofLevels`), by induction on the levels: what a rule takes
from the level below it has been read at the next level.  `leads_statement` says the same of
statements: a statement that is read derives from the tokens that were read, and where the rule
fails those tokens are the beginning of a statement.
-/

namespace SqlForest

namespace Grammar

open Rule

/-! ## The rule of a phrase -/

/-- The rule for a kind of phrase, made from the rules of the level below. -/
def Phrase.rule : Phrase → Rules → Rule Expr
  | expression => Rule.expression
  | disjunct => Rule.disjunct
  | conjunct => Rule.conjunct
  | nullCheck => Rule.nullCheck
  | comparison => Rule.comparison
  | comparable => Rule.comparable
  | term => Rule.term
  | factor => Rule.factor

/-- The rule of a level for the operands of a chain. -/
def Chain.operandOf : Chain → Rules → Rule Expr
  | disjunction => Rules.disjunct
  | conjunction => Rules.conjunct
  | comparison => Rules.comparable
  | sum => Rules.term

/-- The rule of a level for what follows a left operand of a chain. -/
def Chain.moreOf : Chain → Rules → Expr → Rule Expr
  | disjunction => Rules.moreDisjuncts
  | conjunction => Rules.moreConjuncts
  | comparison => Rules.moreComparables
  | sum => Rules.moreTerms

/-- Reads on behind a left operand of a chain. -/
def Chain.more (c : Chain) (below : Rules) (left : Expr) : Rule Expr :=
  Rule.chain below c.operator? c.operandOf c.moreOf left

/-- Reads a chain. -/
def Chain.rule (c : Chain) (below : Rules) : Rule Expr := do
  let first ← c.operand.rule below
  c.more below first

theorem Chain.operandOf_above (c : Chain) (below : Rules) :
    c.operandOf (Rules.above below) = c.operand.rule below := by
  cases c <;> rfl

theorem Chain.moreOf_above (c : Chain) (below : Rules) :
    c.moreOf (Rules.above below) = c.more below := by
  cases c <;> rfl

/-- Below the last level every rule of a chain fails. -/
theorem Chain.operandOf_tooDeep (c : Chain) :
    c.operandOf Rules.tooDeep = Rule.fail .nestedTooDeeply := by
  cases c <;> rfl

theorem Chain.moreOf_tooDeep (c : Chain) (left : Expr) :
    c.moreOf Rules.tooDeep left = Rule.fail .nestedTooDeeply := by
  cases c <;> rfl

/-! ## Levels -/

variable {limit level : Nat}

/-- Some tokens are an expression without any nesting. -/
theorem derives_sample (limit level : Nat) :
    Derives limit .factor level [sampleOfKind .string] (.string "") :=
  .string rfl

/-- The rules of a level follow the derivations at that level, if there may be one so deep. -/
structure Follow (limit level : Nat) (rules : Rules) : Prop where
  operand : ∀ c : Chain,
    Follows (fun ts e => level ≤ limit ∧ Derives limit c.operand level ts e) (c.operandOf rules)
  more : ∀ (c : Chain) (base further : Nat) (ts : List Token) (left : Expr),
    base + further = level → Chained limit c base further ts left →
      Follows (fun us e => ∃ last, Chained limit c base last (ts ++ us) e) (c.moreOf rules left)
  factor : Follows (fun ts e => level ≤ limit ∧ Derives limit .factor level ts e) rules.factor

theorem follow_tooDeep (limit level : Nat) : Follow limit level Rules.tooDeep where
  operand c := by
    rw [Chain.operandOf_tooDeep]
    exact follows_tooDeep _
  more c base further ts left _ _ := by
    rw [Chain.moreOf_tooDeep]
    exact follows_tooDeep _
  factor := follows_tooDeep _

/-! ## From the rules of a level to those above it -/

section Above

variable {below : Rules}

/-- Each further operand of a chain is a level below the one before it. -/
theorem follows_more (h : Follow limit (level + 1) below) (c : Chain) {base further : Nat}
    {ts : List Token} {left : Expr} (hlevel : base + further = level)
    (hleft : Chained limit c base further ts left) :
    Follows (fun us e => ∃ last, Chained limit c base last (ts ++ us) e) (c.more below left) := by
  unfold Chain.more Rule.chain
  apply follows_accept?_bind
  · refine follows_pure ⟨further, ?_⟩
    rwa [List.append_nil]
  · intro joint op hop
    have hlonger : ∀ us e, level + 1 ≤ limit ∧ Derives limit c.operand (level + 1) us e →
        Chained limit c base (further + 1) (ts ++ joint :: us) (.binary op left e) := by
      intro us e he
      subst hlevel
      exact .further hleft hop he.1 he.2
    refine (h.operand c).bind ?_ ?_
    · intro us e he
      refine ⟨[], .binary op left e, further + 1, ?_⟩
      simpa using hlonger us e he
    · intro us e he
      have hnext := h.more c base (further + 1) _ _ (by omega) (hlonger us e he)
      apply hnext.mono
      intro vs e' hlast
      simpa using hlast

theorem follows_chain (h : Follow limit (level + 1) below) (c : Chain)
    (hoperand : Follows (Derives limit c.operand level) (c.operand.rule below)) :
    Follows (fun ts e => ∃ further, Chained limit c level further ts e) (c.rule below) := by
  apply hoperand.bind
  · intro ts e he
    refine ⟨[], e, 0, ?_⟩
    rw [List.append_nil]
    exact .first he
  · intro ts e he
    exact follows_more h c (Nat.add_zero level) (.first he)

theorem follows_expression (h : Follow limit (level + 1) below) :
    Follows (Derives limit .expression level) (Rule.expression below) := by
  refine (h.operand .disjunction).bind ?_ ?_
  · intro ts e he
    refine ⟨[], e, ?_⟩
    rw [List.append_nil]
    exact .expression he.1 (.first he.2)
  · intro ts e he
    refine (h.more .disjunction (level + 1) 0 ts e rfl (.first he.2)).mono ?_
    rintro us e' ⟨further, hchain⟩
    exact .expression he.1 hchain

theorem follows_items (h : Follow limit (level + 1) below) :
    Follows (Items limit level) (commaSeparated (Rule.expression below)) := by
  refine follows_commaSeparated (follows_expression h) ?_ ?_
  · intro ts e he
    exact .one he
  · intro ts es comma us e hes hcomma he
    exact .more hes hcomma he

theorem follows_tuple (h : Follow limit (level + 1) below) :
    Follows (Tuple limit level) (Rule.tuple below) := by
  have hstart : Tuple limit level [sampleOfKind .leftParen, sampleOfKind .rightParen] [] :=
    .empty rfl rfl
  refine follows_kind_bind ⟨_, _, hstart⟩ ?_
  intro opening hopening
  apply follows_kind?_bind
  · refine (follows_items h).bind ?_ ?_
    · intro ts es hes
      exact ⟨[sampleOfKind .rightParen], es, .items hopening hes rfl⟩
    · intro ts es hes
      refine follows_kind_bind ⟨[sampleOfKind .rightParen], es, .items hopening hes rfl⟩ ?_
      intro closing hclosing
      exact follows_pure (.items hopening hes hclosing)
  · intro closing hclosing
    exact follows_pure (.empty hopening hclosing)

/-- A name in front of a tuple is a call. -/
theorem Tuple.call {name : Token} {ts : List Token} {es : List Expr}
    (hname : name.kind = .identifier) (h : Tuple limit level ts es) :
    Derives limit .factor level (name :: ts) (.call name.lexeme es) := by
  cases h with
  | empty hopening hclosing => exact .emptyCall hname hopening hclosing
  | items hopening items hclosing => exact .call hname hopening items hclosing

theorem follows_named (h : Follow limit (level + 1) below) {name : Token}
    (hname : name.kind = .identifier) :
    Follows (fun us => Derives limit .factor level (name :: us))
      (Rule.named below name.lexeme) := by
  refine follows_of_next (named_eq below name.lexeme) ?_
  intro next
  unfold namedBefore
  split
  · exact follows_pure (.name hname)
  · split
    · refine Follows.map ((follows_tuple h).mono ?_)
      intro ts es hes
      exact hes.call hname
    · exact follows_pure (.name hname)

theorem follows_closed (h : Follow limit (level + 1) below) {opening : Token}
    (hopening : opening.kind = .leftParen) :
    Follows (fun us => Derives limit .factor level (opening :: us)) (Rule.closed below) := by
  refine (follows_expression h).bind ?_ ?_
  · intro ts e he
    exact ⟨[sampleOfKind .rightParen], e, .parentheses hopening he rfl⟩
  · intro ts e he
    refine follows_kind_bind ⟨[sampleOfKind .rightParen], e, .parentheses hopening he rfl⟩ ?_
    intro closing hclosing
    exact follows_pure (.parentheses hopening he hclosing)

theorem follows_factor (h : Follow limit (level + 1) below) :
    Follows (Derives limit .factor level) (Rule.factor below) := by
  have hstart : ∃ ts e, Derives limit .factor level ts e := ⟨_, _, derives_sample limit level⟩
  refine follows_of_next (factor_eq below) ?_
  intro next
  unfold factorFrom
  split
  · exact follows_fail _ hstart
  · split
    · exact follows_kind_bind hstart fun name hname => follows_named h hname
    · exact follows_kind_bind hstart fun opening hopening => follows_closed h hopening
    · split
      · apply follows_require_bind hstart
        intro sign op hop
        obtain ⟨hkind, hsign⟩ := sign?_eq_some.mp hop
        refine Follows.map (h.factor.mono ?_)
        intro ts e he
        exact .sign hkind hsign he.1 he.2
      · exact follows_fail _ hstart
    · split
      · apply follows_require_bind hstart
        intro number value hvalue
        obtain ⟨hkind, hvalue⟩ := integer?_eq_some.mp hvalue
        exact follows_pure (.number hkind hvalue)
      · exact follows_fail _ hstart
    · exact follows_kind_bind hstart fun string hkind => follows_pure (.string hkind)
    · exact follows_fail _ hstart

theorem follows_term (h : Follow limit (level + 1) below) :
    Follows (Derives limit .term level) (Rule.term below) := by
  refine (follows_factor h).bind ?_ ?_
  · intro ts e he
    refine ⟨[], e, ?_⟩
    rw [List.append_nil]
    exact .term he
  · intro ts left hleft
    apply follows_accept?_bind
    · apply follows_pure
      rw [List.append_nil]
      exact .term hleft
    · intro sign op hop
      refine Follows.map ((h.operand .sum).mono ?_)
      intro us right hright
      exact .product hleft hop hright.1 hright.2

theorem follows_comparable (h : Follow limit (level + 1) below) :
    Follows (Derives limit .comparable level) (Rule.comparable below) := by
  refine (follows_chain h .sum (follows_term h)).mono ?_
  rintro ts e ⟨further, hchain⟩
  exact .comparable hchain

theorem follows_comparison (h : Follow limit (level + 1) below) :
    Follows (Derives limit .comparison level) (Rule.comparison below) := by
  refine (follows_chain h .comparison (follows_comparable h)).mono ?_
  rintro ts e ⟨further, hchain⟩
  exact .comparison hchain

theorem follows_nullCheck (h : Follow limit (level + 1) below) :
    Follows (Derives limit .nullCheck level) (Rule.nullCheck below) := by
  refine (follows_comparison h).bind ?_ ?_
  · intro ts e he
    refine ⟨[], e, ?_⟩
    rw [List.append_nil]
    exact .nullCheck he
  · intro ts e he
    apply follows_keyword?_bind
    · apply follows_pure
      rw [List.append_nil]
      exact .nullCheck he
    · intro is his
      -- The two forms differ in what stands between `IS` and `NULL`.
      apply follows_keyword?_bind
      · apply follows_keyword_bind
        · exact ⟨[sampleOfKeyword .NULL], _, .isNull he his (keyword?_sampleOfKeyword _)⟩
        · intro null hnull
          exact follows_pure (.isNull he his hnull)
      · intro not hnot
        apply follows_keyword_bind
        · exact ⟨[sampleOfKeyword .NULL], _, .isNotNull he his hnot (keyword?_sampleOfKeyword _)⟩
        · intro null hnull
          exact follows_pure (.isNotNull he his hnot hnull)

theorem follows_conjunct (h : Follow limit (level + 1) below) :
    Follows (Derives limit .conjunct level) (Rule.conjunct below) := by
  apply follows_keyword?_bind
  · refine (follows_nullCheck h).mono ?_
    intro ts e he
    exact .conjunct he
  · intro not hnot
    refine Follows.map ((h.operand .conjunction).mono ?_)
    intro ts e he
    exact .negation hnot he.1 he.2

theorem follows_disjunct (h : Follow limit (level + 1) below) :
    Follows (Derives limit .disjunct level) (Rule.disjunct below) := by
  refine (follows_chain h .conjunction (follows_conjunct h)).mono ?_
  rintro ts e ⟨further, hchain⟩
  exact .disjunct hchain

theorem follows_operand (h : Follow limit (level + 1) below) (c : Chain) :
    Follows (Derives limit c.operand level) (c.operand.rule below) := by
  cases c with
  | disjunction => exact follows_disjunct h
  | conjunction => exact follows_conjunct h
  | comparison => exact follows_comparable h
  | sum => exact follows_term h

theorem Follow.above (h : Follow limit (level + 1) below) (hlevel : level ≤ limit) :
    Follow limit level (Rules.above below) where
  operand c := by
    rw [Chain.operandOf_above]
    exact (follows_operand h c).mono fun ts e he => ⟨hlevel, he⟩
  more c base further ts left hbase hleft := by
    rw [Chain.moreOf_above]
    exact follows_more h c hbase hleft
  factor := (follows_factor h).mono fun ts e he => ⟨hlevel, he⟩

end Above

/-- The first of `levels` levels is the level `limit - levels + 1`. -/
theorem follow_ofLevels {levels : Nat} (h : level + levels = limit) :
    Follow limit (level + 1) (Rules.ofLevels levels) := by
  induction levels generalizing level with
  | zero => exact follow_tooDeep limit (level + 1)
  | succ levels ih =>
    have hbelow : Follow limit (level + 1 + 1) (Rules.ofLevels levels) := ih (by omega)
    exact hbelow.above (by omega)

/-! ## Statements -/

theorem leads_identifier : Leads Name identifier := by
  have hrun : identifier = (kind .identifier >>= fun name => pure name) := (bind_pure _).symm
  rw [hrun]
  apply leads_kind_bind
  intro t ht
  exact leads_pure (.name ht)

theorem leads_names : Leads Names (commaSeparated identifier) := by
  obtain ⟨ts, name, hname⟩ := leads_identifier.starts
  refine ⟨follows_commaSeparated leads_identifier.toFollows ?_ ?_, ts, [name], .one hname⟩
  · intro us name h
    exact .one h
  · intro us names comma vs name h hcomma hlast
    exact .more h hcomma hlast

theorem leads_tableName : Leads Table tableName := by
  apply leads_identifier.bind
  intro ts first hfirst
  apply leads_kind?_bind
  · apply leads_pure
    rw [List.append_nil]
    exact .plain hfirst
  · intro period hperiod
    refine (leads_identifier.bind ?_).toFollows
    intro us table htable
    apply leads_pure
    rw [List.append_nil]
    exact .qualified hfirst hperiod htable

theorem leads_clause? {α : Type} {word : Keyword} {content : List Token → α → Prop}
    {rule : Rule α} (h : Follows content rule) :
    Leads (Clause word content) (clause? word rule) := by
  apply leads_keyword?_bind
  · exact leads_pure .absent
  · intro t hword
    refine Follows.map (h.mono ?_)
    intro ts a ha
    exact .present hword ha

/-- The last step of a statement. -/
theorem leads_terminator {α : Type} {N : List Token → α → Prop} {a : α}
    (h : ∀ last : Token, last.kind = .semicolon → N [last] a) :
    Leads N (terminator >>= fun _ => pure a) := by
  rw [terminator_bind]
  apply leads_kind_bind
  intro last hlast
  exact leads_pure (h last hlast)

section Bodies

variable {word : Token}

theorem leads_useBody (hword : word.keyword? = some .USE) :
    Leads (fun ts => Sentence limit (word :: ts)) useBody := by
  apply leads_identifier.bind
  intro ts database hname
  apply leads_terminator
  intro last hlast
  exact .use hword hname hlast

/-- Expressions of a statement start at level zero, so there is room for them. -/
theorem leads_expression (hlimit : 0 < limit) :
    Leads (Derives limit .expression 0) (Rule.expression (Rules.ofLevels limit)) := by
  refine ⟨follows_expression (follow_ofLevels (Nat.zero_add limit)), ?_, ?_, ?_⟩
  · exact [sampleOfKind .string]
  · exact .string ""
  · have hfactor := derives_sample limit 1
    exact .expression hlimit (.first (.disjunct (.first (.conjunct (.nullCheck (.comparison
      (.first (.comparable (.first (.term hfactor))))))))))

theorem leads_items (hlimit : 0 < limit) :
    Leads (Items limit 0) (commaSeparated (Rule.expression (Rules.ofLevels limit))) := by
  obtain ⟨ts, e, he⟩ := (leads_expression hlimit).starts
  exact ⟨follows_items (follow_ofLevels (Nat.zero_add limit)), ts, [e], .one he⟩

theorem leads_tuple (limit : Nat) :
    Leads (Tuple limit 0) (Rule.tuple (Rules.ofLevels limit)) := by
  refine ⟨follows_tuple (follow_ofLevels (Nat.zero_add limit)), ?_⟩
  exact ⟨[sampleOfKind .leftParen, sampleOfKind .rightParen], [], .empty rfl rfl⟩

theorem leads_selectBody (hlimit : 0 < limit) (hword : word.keyword? = some .SELECT) :
    Leads (fun ts => Sentence limit (word :: ts)) (selectBody (Rules.ofLevels limit)) := by
  have hexpression := leads_expression hlimit
  have horder : Leads (Order limit) (do
      keyword .BY
      Rule.expression (Rules.ofLevels limit)) := by
    apply leads_keyword_bind
    intro t ht
    obtain ⟨ts, e, he⟩ := hexpression.starts
    refine ⟨hexpression.toFollows.mono ?_, ts, e, .order ht he⟩
    intro us e' he'
    exact .order ht he'
  refine (leads_items hlimit).bind ?_
  intro ts items hitems
  refine (leads_clause? leads_tableName.toFollows).bind ?_
  intro us source hsource
  refine (leads_clause? hexpression.toFollows).bind ?_
  intro vs condition hcondition
  refine (leads_clause? horder.toFollows).bind ?_
  intro ws order horder
  apply leads_terminator
  intro last hlast
  exact .select hword hitems hsource hcondition horder hlast

theorem leads_insertBody (hword : word.keyword? = some .INSERT) :
    Leads (fun ts => Sentence limit (word :: ts)) (insertBody (Rules.ofLevels limit)) := by
  apply leads_keyword_bind
  intro into hinto
  apply leads_tableName.bind
  intro ts table htable
  apply leads_kind_bind
  intro opening hopening
  apply leads_names.bind
  intro us columns hcolumns
  apply leads_kind_bind
  intro closing hclosing
  apply leads_keyword_bind
  intro row hrow
  refine (leads_tuple limit).bind ?_
  intro vs values hvalues
  apply leads_terminator
  intro last hlast
  exact .insert hword hinto htable hopening hcolumns hclosing hrow hvalues hlast

theorem leads_deleteBody (hlimit : 0 < limit) (hword : word.keyword? = some .DELETE) :
    Leads (fun ts => Sentence limit (word :: ts)) (deleteBody (Rules.ofLevels limit)) := by
  apply leads_keyword_bind
  intro source hsource
  apply leads_tableName.bind
  intro ts table htable
  apply leads_keyword_bind
  intro filter hfilter
  refine (leads_expression hlimit).bind ?_
  intro us condition hcondition
  apply leads_terminator
  intro last hlast
  exact .delete hword hsource htable hfilter hcondition hlast

end Bodies

theorem leads_statement (hlimit : 0 < limit) :
    Leads (Sentence limit) (statement (Rules.ofLevels limit)) := by
  have huse : Leads (Sentence limit) (keyword .USE >>= fun _ => useBody) :=
    leads_keyword_bind fun word hword => leads_useBody hword
  refine ⟨follows_of_next (statement_eq _) ?_, huse.starts⟩
  intro next
  unfold statementFrom
  split
  · exact follows_fail _ huse.starts
  · split
    · exact huse.toFollows
    · exact (leads_keyword_bind fun word hword => leads_selectBody hlimit hword).toFollows
    · exact (leads_keyword_bind fun word hword => leads_insertBody hword).toFollows
    · exact (leads_keyword_bind fun word hword => leads_deleteBody hlimit hword).toFollows
    · split
      · exact follows_fail _ huse.starts
      · exact follows_fail _ huse.starts

end Grammar

end SqlForest
