import SqlForest.Proofs.Descent.Budget

/-!
# Expressions beside each other

What has been read leaves nothing behind that another routine could see but the cursor
(`Routine.Steady`).  So the expressions of a list are read one after the other, each by itself and
at the level of the list (`Parser.ReadsList`), and so are the clauses of a query
(`Parser.ReadsQuery`).  By itself a phrase is read for its own tokens, whatever stands in front of
them, and whatever ends it behind them (`Parser.Within.reads_own_tokens`).
-/

namespace SqlForest

open Grammar

variable {α β : Type}

namespace Parser

/-- The parser with its cursor somewhere else. -/
def goTo (p : Parser) (cursor : Nat) : Parser :=
  { p with current := cursor }

/-- Expressions with commas between them that are each read by themselves, wherever the one before
it ends. -/
inductive ReadsList (p : Parser) : (start : Nat) → List Expr → (stop : Nat) → Prop
  | last {start stop : Nat} {e : Expr}
      (item : (p.goTo start).Reads Phrase.expression.routine e stop)
      (hend : (p.goTo stop).next.kind ≠ .comma) : ReadsList p start [e] stop
  | comma {start middle stop : Nat} {e : Expr} {es : List Expr}
      (item : (p.goTo start).Reads Phrase.expression.routine e middle)
      (hcomma : (p.goTo middle).next.kind = .comma) (later : ReadsList p (middle + 1) es stop) :
      ReadsList p start (e :: es) stop

/-- The parts of a query that are each read by themselves, wherever the one before it ends. -/
inductive ReadsQuery (p : Parser) (query : Select) (stop : Nat) : Prop
  | parts {items source condition order last : Nat} {lexeme : String}
      (hword : p.Reads (Routine.keyword .SELECT) () items)
      (hitems : p.ReadsList items query.items source)
      (hsource : (p.goTo source).Reads (Routine.clause? .FROM Routine.tableName) query.source
        condition)
      (hcondition : (p.goTo condition).Reads (Routine.clause? .WHERE Phrase.expression.routine)
        query.condition order)
      (horder : (p.goTo order).Reads (Routine.clause? .ORDER (do
        Routine.keyword .BY
        Phrase.expression.routine)) query.order last)
      (hlast : (p.goTo last).Reads (Routine.kind .semicolon) lexeme stop)

end Parser

/-! ## What has been read -/

namespace Parser

variable {s : TokenStream} {p : Parser}

theorem Within.goTo (h : p.Within s) {cursor : Nat} (hle : cursor ≤ s.tokens.length) :
    (p.goTo cursor).Within s :=
  ⟨h.stream_eq, h.limit_eq, hle⟩

theorem Within.record (h : p.Within s) (record : List Entry) :
    ({ p with entered := record } : Parser).Within s :=
  ⟨h.stream_eq, h.limit_eq, h.current_le⟩

/-- What is read by itself is read in a sequence, from wherever the part before it ends. -/
theorem Reads.bind {r : Routine α} {f : α → Routine β} {a : α} {b : β} {middle stop : Nat}
    (hr : p.Reads r a middle) (hf : (p.goTo middle).Reads (f a) b stop) :
    p.Reads (r >>= f) b stop := by
  intro record
  obtain ⟨entered, hfirst⟩ := hr record
  rw [Routine.bind_apply, hfirst]
  exact hf entered

theorem reads_pure (a : α) : p.Reads (pure a) a p.current :=
  fun record => ⟨record, rfl⟩

end Parser

namespace Routine

variable {r : Routine α} {f : α → Routine β} {s : TokenStream} {p q : Parser}

/-- A result leaves nothing behind but the cursor, and a record that does not matter. -/
def Steady (r : Routine α) : Prop :=
  ∀ (s : TokenStream) (p q : Parser) (a : α), p.Within s → p.depth ≤ maxDepth →
    r p = some (.ok a, q) →
    q.Within s ∧ q = { p with current := q.current, entered := q.entered } ∧ p.Reads r a q.current

theorem Agrees.steady {rule : Nat → Rule α}
    (h : ∀ level ≤ maxDepth, Agrees maxDepth level (· = level) r (rule level)) : Steady r := by
  intro s p q a hwithin hdepth hrun
  have hagrees := h p.depth hdepth
  obtain ⟨used, rest, hrest, -, hmoved⟩ := hagrees.eq_of_ok hwithin.atToken hwithin.limit_eq hrun
  refine ⟨?_, hagrees.reads hwithin.atToken hwithin.limit_eq hrun⟩
  rw [hmoved]
  exact (hwithin.moved used hrest p.depth []).record q.entered

theorem Leveled.steady {rule : Nat → Rule α} (h : Leveled r rule) : Steady r :=
  Agrees.steady fun _ hlevel => h.agrees (Nat.add_sub_of_le hlevel)

theorem Steady.within (hr : Steady r) (h : p.Within s) (hdepth : p.depth ≤ maxDepth) {a : α}
    {stop : Nat} (hread : p.Reads r a stop) : (p.goTo stop).Within s := by
  obtain ⟨entered, hrun⟩ := hread p.entered
  exact (hr s p _ a h hdepth hrun).1.record p.entered

/-- What follows in a sequence finds the parser as it was, but for the cursor and the record. -/
theorem Steady.step (hr : Steady r) (h : p.Within s) (hdepth : p.depth ≤ maxDepth) {b : β}
    (hrun : (r >>= f) p = some (.ok b, q)) :
    ∃ a middle record, ({ p with current := middle, entered := record } : Parser).Within s ∧
      p.Reads r a middle ∧
      f a { p with current := middle, entered := record } = some (.ok b, q) := by
  rw [bind_apply] at hrun
  rcases hfirst : r p with _ | ⟨_ | a, u⟩
  · rw [hfirst] at hrun
    cases hrun
  · rw [hfirst] at hrun
    cases hrun
  · rw [hfirst] at hrun
    obtain ⟨hwithin, hu, hread⟩ := hr s p u a h hdepth hfirst
    rw [hu] at hwithin hrun
    exact ⟨a, u.current, u.entered, hwithin, hread, hrun⟩

theorem steady_keyword (k : Keyword) : Steady (keyword k) :=
  Agrees.steady fun _ hlevel => (follows_keyword k hlevel).agrees

theorem steady_kind {k : TokenKind} (hk : k ≠ .endOfInput) : Steady (kind k) :=
  Agrees.steady fun _ hlevel => (follows_kind hk hlevel).agrees

theorem steady_expression : Steady Phrase.expression.routine :=
  (leveled_phrase .expression).steady

theorem steady_source : Steady (clause? .FROM tableName) :=
  Agrees.steady fun _ hlevel => (follows_clause? (follows_tableName hlevel)).agrees

theorem steady_condition : Steady (clause? .WHERE Phrase.expression.routine) :=
  Agrees.steady fun _ hlevel =>
    (follows_clause? (follows_expression (Parser.below_level hlevel))).agrees

theorem steady_order : Steady (clause? .ORDER (do
    keyword .BY
    Phrase.expression.routine)) :=
  Agrees.steady fun _ hlevel =>
    (follows_clause? (follows_order (Parser.below_level hlevel))).agrees

theorem steady_selectStatement : Steady selectStatement :=
  Agrees.steady fun _ hlevel => (follows_selectStatement (Parser.below_level hlevel)).agrees

end Routine

/-! ## Lists -/

namespace Parser

open Routine

variable {s : TokenStream} {p q : Parser}

/-- A comma that comes next is gone past. -/
theorem kind?_comma_bind {f : Bool → Routine β} (h : p.Within s) (hcomma : p.next.kind = .comma) :
    (kind? .comma >>= f) p = f true (p.goTo (p.current + 1)) ∧ p.current < s.tokens.length := by
  obtain ⟨t, rest, hrest, ht⟩ := exists_rest_of_kind (by decide) hcomma
  refine ⟨kind?_bind_of_cons hrest ht, ?_⟩
  have hlength := congrArg List.length hrest
  rw [h.rest_eq, List.length_drop, List.length_cons] at hlength
  omega

/-- Behind an expression the rest of a list is read.  Every further expression takes a token. -/
theorem readsList_of_moreItems {start middle : Nat} {record : List Entry} {e : Expr}
    {read es : List Expr} (hdepth : p.depth ≤ maxDepth)
    (h : ({ p with current := middle, entered := record } : Parser).Within s)
    (hfirst : (p.goTo start).Reads Phrase.expression.routine e middle)
    (hrun : Phrase.expression.moreItems read { p with current := middle, entered := record } =
      some (.ok es, q)) :
    ∃ later, es = read.reverse ++ later ∧ p.ReadsList start (e :: later) q.current := by
  induction hleft : s.tokens.length - middle using Nat.strongRecOn
    generalizing start middle record e read with
  | ind left ih =>
    subst hleft
    rw [Phrase.moreItems.eq_def] at hrun
    by_cases hcomma : (p.goTo middle).next.kind = .comma
    · obtain ⟨hpast, hlt⟩ := kind?_comma_bind h hcomma
      have hbehind : (p.goTo (middle + 1)).Within s := (h.record p.entered).goTo hlt
      rw [hpast, if_pos rfl] at hrun
      obtain ⟨e', cursor, record', hwithin, hitem, hlater⟩ :=
        steady_expression.step (hbehind.record record) hdepth hrun
      have hless : middle + 1 < cursor :=
        hbehind.current_lt hdepth (leveled_phrase .expression) hitem
      have hfewer : s.tokens.length - cursor < s.tokens.length - middle := by
        have hle : middle < s.tokens.length := hlt
        omega
      obtain ⟨later, rfl, hlist⟩ := ih _ hfewer hwithin hitem hlater rfl
      refine ⟨e' :: later, ?_, .comma hfirst hcomma hlist⟩
      rw [List.reverse_cons, List.append_assoc]
      rfl
    · rw [kind?_bind_of_ne h.atToken hcomma] at hrun
      cases hrun
      exact ⟨[], by rw [List.append_nil], .last hfirst hcomma⟩

/-- Expressions that can be read by themselves are read as a list. -/
theorem ReadsList.moreItems {start stop : Nat} {es : List Expr} (h : p.ReadsList start es stop)
    (hdepth : p.depth ≤ maxDepth) (hstart : (p.goTo start).Within s) (read : List Expr) :
    (p.goTo start).Reads (do
      let e ← Phrase.expression.routine
      Phrase.expression.moreItems (e :: read)) (read.reverse ++ es) stop := by
  induction h generalizing read with
  | @last start stop e hitem hend =>
    have hwithin := steady_expression.within hstart hdepth hitem
    refine hitem.bind ?_
    intro record
    refine ⟨record, ?_⟩
    rw [Phrase.moreItems.eq_def, kind?_bind_of_ne (hwithin.record record).atToken hend,
      if_neg Bool.false_ne_true, List.reverse_cons]
    rfl
  | @comma start middle stop e es hitem hcomma _ ih =>
    have hwithin := steady_expression.within hstart hdepth hitem
    refine hitem.bind ?_
    intro record
    obtain ⟨hpast, hlt⟩ := kind?_comma_bind (hwithin.record record) hcomma
    have hlater := ih (hwithin.goTo hlt) (e :: read)
    rw [List.reverse_cons, List.append_assoc] at hlater
    rw [Phrase.moreItems.eq_def, hpast, if_pos rfl]
    exact hlater record

/-- A list is read just when its expressions are read by themselves. -/
theorem reads_items {start stop : Nat} (h : (p.goTo start).Within s) (hdepth : p.depth ≤ maxDepth)
    {es : List Expr} :
    (p.goTo start).Reads Phrase.expression.items es stop ↔ p.ReadsList start es stop := by
  constructor
  · intro hread
    obtain ⟨entered, hrun⟩ := hread p.entered
    rw [Phrase.items.eq_def] at hrun
    obtain ⟨e, middle, record, hwithin, hfirst, hlater⟩ := steady_expression.step h hdepth hrun
    obtain ⟨later, rfl, hlist⟩ := readsList_of_moreItems hdepth hwithin hfirst hlater
    exact hlist
  · intro hlist
    rw [Phrase.items.eq_def]
    exact hlist.moreItems hdepth h []

/-! ## Queries -/

/-- A query is read just when its parts are read by themselves. -/
theorem Within.reads_selectStatement (h : p.Within s) (hdepth : p.depth ≤ maxDepth)
    {statement : Statement} {stop : Nat} :
    p.Reads selectStatement statement stop ↔
      ∃ query, statement = .select query ∧ p.ReadsQuery query stop := by
  constructor
  · intro hread
    obtain ⟨entered, hrun⟩ := hread p.entered
    rw [selectStatement] at hrun
    obtain ⟨_, first, _, hfirst, hword, hrun⟩ := (steady_keyword .SELECT).step h hdepth hrun
    obtain ⟨items, second, _, hsecond, hitems, hrun⟩ :=
      leveled_items.steady.step hfirst hdepth hrun
    obtain ⟨source, third, _, hthird, hsource, hrun⟩ := steady_source.step hsecond hdepth hrun
    obtain ⟨condition, fourth, _, hfourth, hcondition, hrun⟩ :=
      steady_condition.step hthird hdepth hrun
    obtain ⟨order, fifth, _, hfifth, horder, hrun⟩ := steady_order.step hfourth hdepth hrun
    obtain ⟨lexeme, last, _, -, hlast, hrun⟩ := (steady_kind (by decide)).step hfifth hdepth hrun
    cases hrun
    have hlist := (reads_items (hfirst.record p.entered) hdepth).mp hitems
    exact ⟨⟨items, source, condition, order⟩, rfl,
      .parts hword hlist hsource hcondition horder hlast⟩
  · rintro ⟨query, rfl, hquery⟩
    cases hquery with
    | @parts first second third fourth fifth lexeme hword hlist hsource hcondition horder hlast =>
      have hfirst := (steady_keyword .SELECT).within h hdepth hword
      have hitems := (reads_items hfirst hdepth).mpr hlist
      exact hword.bind (hitems.bind (hsource.bind (hcondition.bind (horder.bind (hlast.bind
        (reads_pure _))))))

/-! ## Tokens -/

/-- At a level a phrase is read by itself just when it derives at the level. -/
theorem Within.reads_phrase (h : p.Within s) (hdepth : p.depth ≤ maxDepth) {goal : Phrase}
    {ts rest : List Token} {e : Expr} (hrest : p.rest = ts ++ rest) (hends : Ends goal rest) :
    p.Reads goal.routine e (p.current + ts.length) ↔ Derives maxDepth goal p.depth ts e := by
  have hlevels : p.depth + (maxDepth - p.depth) = maxDepth := Nat.add_sub_of_le hdepth
  rw [h.reads_iff hdepth (leveled_phrase goal)]
  constructor
  · rintro ⟨used, left, hleft, hread, hstop⟩
    have hcount : ts.length = used.length := Nat.add_left_cancel hstop
    obtain ⟨rfl, rfl⟩ := List.append_inj (hrest.symm.trans hleft) hcount
    obtain ⟨used, hused, hderives⟩ :=
      (Grammar.follows_phrase (follow_ofLevels hlevels) goal).reads _ _ _ hread
    obtain rfl : ts = used := List.append_cancel_right (hrest.symm.trans hused)
    exact hderives
  · intro hderives
    refine ⟨ts, rest, hrest, ?_, rfl⟩
    rw [hrest]
    exact hderives.reads _ rest hlevels hends

/-- Whether a phrase is read by itself depends on the level and on its own tokens, but not on what
stands in front of them, nor on what it is that ends the phrase. -/
theorem Within.reads_own_tokens {s' : TokenStream} {p' : Parser} (h : p.Within s)
    (h' : p'.Within s') (hdepth : p.depth ≤ maxDepth) (hlevel : p'.depth = p.depth) {goal : Phrase}
    {ts rest rest' : List Token} {e : Expr} (hrest : p.rest = ts ++ rest)
    (hrest' : p'.rest = ts ++ rest') (hends : Ends goal rest) (hends' : Ends goal rest') :
    p.Reads goal.routine e (p.current + ts.length) ↔
      p'.Reads goal.routine e (p'.current + ts.length) := by
  rw [h.reads_phrase hdepth hrest hends, h'.reads_phrase (hlevel ▸ hdepth) hrest' hends', hlevel]

/-! ## The budget -/

/-- At any level up to the last one, every routine for expressions keeps to the levels that there
are.  What it has read leaves the level as it was and the cursor further on, and could have been
read from any level before.

So expressions beside each other do not share their levels.  A list is read just when each of its
expressions is read by itself at the level of the list, and a query just when each of its parts is;
and by itself an expression is read for its own tokens. -/
theorem Within.depth_budget (h : p.Within s) (hdepth : p.depth ≤ maxDepth) :
    (∀ goal : Phrase, p.Budgeted goal.routine ∧ p.Budgeted goal.nested) ∧
    p.Budgeted Phrase.expression.tuple ∧
    p.Budgeted Phrase.expression.items ∧
    (∀ es stop, p.Reads Phrase.expression.items es stop ↔ p.ReadsList p.current es stop) ∧
    (∀ statement q, selectStatement p = some (.ok statement, q) →
      q = { p with current := q.current, entered := q.entered } ∧
        p.Reads selectStatement statement q.current) ∧
    (∀ statement stop, p.Reads selectStatement statement stop ↔
      ∃ query, statement = .select query ∧ p.ReadsQuery query stop) ∧
    (∀ (s' : TokenStream) (p' : Parser) (goal : Phrase) (ts rest rest' : List Token) (e : Expr),
      p'.Within s' → p'.depth = p.depth → p.rest = ts ++ rest → p'.rest = ts ++ rest' →
      Ends goal rest → Ends goal rest' →
      (p.Reads goal.routine e (p.current + ts.length) ↔
        p'.Reads goal.routine e (p'.current + ts.length))) := by
  refine ⟨?_, h.budgeted hdepth leveled_tuple, h.budgeted hdepth leveled_items, ?_, ?_, ?_, ?_⟩
  · intro goal
    exact ⟨h.budgeted hdepth (leveled_phrase goal), h.budgeted hdepth (leveled_nested goal)⟩
  · intro es stop
    exact reads_items h hdepth
  · intro statement q hrun
    exact (steady_selectStatement s p q statement h hdepth hrun).2
  · intro statement stop
    exact h.reads_selectStatement hdepth
  · intro s' p' goal ts rest rest' e h' hlevel hrest hrest' hends hends'
    exact h.reads_own_tokens h' hdepth hlevel hrest hrest' hends hends'

end Parser

/-- A stream of one number. -/
def TokenStream.one : TokenStream where
  tokens := [⟨.number, "1", ⟨"q", 1, 1⟩⟩]
  finish := ⟨.endOfInput, "", ⟨"q", 1, 2⟩⟩
  kind_ne_endOfInput := by decide
  finish_kind := rfl

/-- A number is an expression at the last level that has one below it, and so it is at every level
before. -/
theorem Parser.depth_budget_last :
    99 ≤ maxDepth ∧ ∀ level ≤ 99, ∃ entered,
      Phrase.expression.routine ⟨.one, some maxDepth, 0, level, []⟩ =
        some (.ok (.number 1), ⟨.one, some maxDepth, 1, level, entered⟩) := by
  have hlast : 99 ≤ maxDepth := by decide
  have hwithin : Parser.Within .one ⟨.one, some maxDepth, 0, 99, []⟩ := ⟨rfl, rfl, Nat.zero_le _⟩
  have hfactor : Derives maxDepth .factor 100 TokenStream.one.tokens (.number 1) :=
    .number rfl (by decide)
  have hconjunct : Derives maxDepth .conjunct 100 TokenStream.one.tokens (.number 1) :=
    .conjunct (.nullCheck (.comparison (.first (.comparable (.first (.term hfactor))))))
  have hderives : Derives maxDepth .expression 99 TokenStream.one.tokens (.number 1) :=
    .expression (by decide) (.first (.disjunct (.first hconjunct)))
  have hrest : Parser.rest ⟨.one, some maxDepth, 0, 99, []⟩ = TokenStream.one.tokens ++ [] := rfl
  have hends : Ends .expression [] := by
    intro t ht
    cases ht
  obtain ⟨entered, hrun⟩ := (hwithin.reads_phrase hlast hrest hends).mpr hderives []
  refine ⟨hlast, fun level hlevel => ?_⟩
  exact ((hwithin.depth_budget hlast).1 .expression).1.shallower _ _ hrun level hlevel

end SqlForest
