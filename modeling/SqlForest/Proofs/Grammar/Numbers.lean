import SqlForest.Proofs.Grammar.Height
import SqlForest.Proofs.Text.Literal

/-!
# The numbers of statements

A number token is read if it is a literal of 64 bits, as the number that it is a literal of, and is
refused where it stands if not (`Rule.factor_number`, `Grammar.Phrase.rule_of_refused`).  Nothing
else is read as a number, so the numbers of a statement are the values of its number tokens, one by
one (`Grammar.Sentences.numbers`).
-/

namespace SqlForest

/-- The text is a literal of the integer, which has 64 bits. -/
def Integer.IsLiteral (text : String) (value : Int) : Prop :=
  Denotes text.toList value ∧ -2 ^ 63 ≤ value ∧ value ≤ 2 ^ 63 - 1

/-! ## One number -/

section Factor

variable {below : Rules} {t : Token} {rest : List Token}

theorem Rule.factor_eq_of_number (ht : t.kind = .number) :
    Rule.factor below (t :: rest) =
      match Integer.ofText? t.lexeme with
      | some value => .ok (.number value, rest)
      | none => .error ⟨t :: rest, .numberTooLong⟩ := by
  cases hvalue : Integer.ofText? t.lexeme <;> simp only [Rule.factor, ht, hvalue]

/-- A number token is read if and only if it is a literal, and nothing else is read then. -/
theorem Rule.factor_number (ht : t.kind = .number) {e : Expr} {left : List Token} :
    Rule.factor below (t :: rest) = .ok (e, left) ↔
      ∃ value, Integer.IsLiteral t.lexeme value ∧ e = .number value ∧ left = rest := by
  rw [factor_eq_of_number ht]
  cases hvalue : Integer.ofText? t.lexeme with
  | none =>
    simp only [reduceCtorEq, false_iff]
    rintro ⟨value, hliteral, -⟩
    rw [Integer.ofText?_eq_some.mpr hliteral] at hvalue
    cases hvalue
  | some value =>
    have hliteral := Integer.ofText?_eq_some.mp hvalue
    constructor
    · intro h
      cases h
      exact ⟨value, hliteral, rfl, rfl⟩
    · rintro ⟨other, hother, rfl, rfl⟩
      rw [Integer.ofText?_eq_some.mpr hother] at hvalue
      cases hvalue
      rfl

theorem Rule.factor_refused (ht : t.kind = .number)
    (hnone : ∀ value, ¬ Integer.IsLiteral t.lexeme value) :
    Rule.factor below (t :: rest) = .error ⟨t :: rest, .numberTooLong⟩ := by
  have hvalue : Integer.ofText? t.lexeme = none := by
    rw [Option.eq_none_iff_forall_ne_some]
    intro value h
    exact hnone value (Integer.ofText?_eq_some.mp h)
  rw [factor_eq_of_number ht, hvalue]

/-- Every phrase that could begin with a number token that is no literal fails there. -/
theorem Grammar.Phrase.rule_of_refused (ht : t.kind = .number)
    (hnone : ∀ value, ¬ Integer.IsLiteral t.lexeme value) (p : Phrase)
    (hp : p = .expression → ∃ lower, below = Rules.above lower) :
    p.rule below (t :: rest) = .error ⟨t :: rest, .numberTooLong⟩ := by
  have hfactor : ∀ below, Rule.factor below (t :: rest) = .error ⟨t :: rest, .numberTooLong⟩ :=
    fun _ => Rule.factor_refused ht hnone
  have hterm : ∀ below, Rule.term below (t :: rest) = .error ⟨t :: rest, .numberTooLong⟩ :=
    fun below => Rule.bind_of_error (hfactor below)
  have hcomparable : ∀ below,
      Rule.comparable below (t :: rest) = .error ⟨t :: rest, .numberTooLong⟩ :=
    fun below => Rule.bind_of_error (hterm below)
  have hcomparison : ∀ below,
      Rule.comparison below (t :: rest) = .error ⟨t :: rest, .numberTooLong⟩ :=
    fun below => Rule.bind_of_error (hcomparable below)
  have hnullCheck : ∀ below,
      Rule.nullCheck below (t :: rest) = .error ⟨t :: rest, .numberTooLong⟩ :=
    fun below => Rule.bind_of_error (hcomparison below)
  have hconjunct : ∀ below,
      Rule.conjunct below (t :: rest) = .error ⟨t :: rest, .numberTooLong⟩ := by
    intro below
    have hword : Rule.Refused (Token.isKeyword? .NOT) (t :: rest) := by
      refine Rule.refused_cons (Rule.isKeyword?_eq_none ?_) rest
      intro hnot
      rw [Rule.kind_of_keyword? hnot] at ht
      cases ht
    exact (Rule.keyword?_bind_refused hword).trans (hnullCheck below)
  have hdisjunct : ∀ below,
      Rule.disjunct below (t :: rest) = .error ⟨t :: rest, .numberTooLong⟩ :=
    fun below => Rule.bind_of_error (hconjunct below)
  cases p with
  | expression =>
    obtain ⟨lower, rfl⟩ := hp rfl
    exact Rule.bind_of_error (hdisjunct lower)
  | disjunct => exact hdisjunct below
  | conjunct => exact hconjunct below
  | nullCheck => exact hnullCheck below
  | comparison => exact hcomparison below
  | comparable => exact hcomparable below
  | term => exact hterm below
  | factor => exact hfactor below

end Factor

/-! ## All numbers -/

/-- The number that an expression is. -/
def Expr.number? : Expr → Option Int
  | number value => some value
  | _ => none

/-- The numbers in an expression, from left to right. -/
def Expr.numbers (e : Expr) : List Int :=
  e.parts.filterMap Expr.number?

/-- The numbers in a statement, from left to right. -/
def Statement.numbers (s : Statement) : List Int :=
  s.expressions.flatMap Expr.numbers

/-- What is read of the number tokens. -/
def numberValues (tokens : List Token) : List (Option Int) :=
  (tokens.filter fun t => t.kind = .number).map fun t => Integer.ofText? t.lexeme

section Values

variable {t : Token} {ts us : List Token}

theorem numberValues_append (ts us : List Token) :
    numberValues (ts ++ us) = numberValues ts ++ numberValues us := by
  rw [numberValues, List.filter_append, List.map_append]
  rfl

theorem numberValues_cons {k : TokenKind} (ht : t.kind = k) (hk : k ≠ .number) (ts : List Token) :
    numberValues (t :: ts) = numberValues ts := by
  have hnot : ¬ decide (t.kind = .number) = true := by
    rw [ht]
    simpa using hk
  unfold numberValues
  rw [List.filter_cons, if_neg hnot]

theorem numberValues_keyword {k : Keyword} (ht : t.keyword? = some k) (ts : List Token) :
    numberValues (t :: ts) = numberValues ts :=
  numberValues_cons (Rule.kind_of_keyword? ht) (by decide) ts

theorem numberValues_operator {group : List BinaryOp} {op : BinaryOp}
    (ht : t.operator? group = some op) (ts : List Token) :
    numberValues (t :: ts) = numberValues ts :=
  numberValues_cons (Rule.kind_of_operator? ht) (by decide) ts

end Values

namespace Expr

theorem numbers_call (name : String) (arguments : List Expr) :
    (call name arguments).numbers = arguments.flatMap numbers := by
  have hall : ∀ es : List Expr, (partsOfAll es).filterMap number? = es.flatMap numbers := by
    intro es
    induction es with
    | nil => rfl
    | cons e es ih =>
      rw [partsOfAll, List.filterMap_append, ih, List.flatMap_cons]
      rfl
  exact hall arguments

theorem numbers_binary (op : BinaryOp) (left right : Expr) :
    (binary op left right).numbers = left.numbers ++ right.numbers := by
  show (left.parts ++ right.parts).filterMap number? = _
  rw [List.filterMap_append]
  rfl

end Expr

namespace Grammar

variable {limit : Nat}

theorem Chain.kind_ne_number {c : Chain} {t : Token} {op : BinaryOp}
    (h : c.operator? t = some op) : t.kind ≠ .number := by
  intro hkind
  have hreach := Chain.reach?_operator h
  unfold Token.reach? at hreach
  rw [hkind] at hreach
  cases hreach

mutual

theorem Derives.numbers {p : Phrase} {level : Nat} {ts : List Token} {e : Expr} :
    Derives limit p level ts e → numberValues ts = e.numbers.map some
  | .expression _ chain => chain.numbers
  | .disjunct chain => chain.numbers
  | .negation hnot _ operand => by rw [numberValues_keyword hnot, operand.numbers]; rfl
  | .conjunct check => check.numbers
  | .isNull operand his hnull => by
    rw [numberValues_append, numberValues_keyword his, numberValues_keyword hnull, operand.numbers]
    exact List.append_nil _
  | .isNotNull operand his hnot hnull => by
    rw [numberValues_append, numberValues_keyword his, numberValues_keyword hnot,
      numberValues_keyword hnull, operand.numbers]
    exact List.append_nil _
  | .nullCheck operand => operand.numbers
  | .comparison chain => chain.numbers
  | .comparable chain => chain.numbers
  | .product left hop _ right => by
    rw [numberValues_append, numberValues_operator hop, left.numbers, right.numbers,
      Expr.numbers_binary, List.map_append]
  | .term factor => factor.numbers
  | .name hname => numberValues_cons hname (by decide) _
  | .emptyCall hname hopening hclosing => by
    rw [numberValues_cons hname (by decide), numberValues_cons hopening (by decide),
      numberValues_cons hclosing (by decide)]
    rfl
  | .call hname hopening items hclosing => by
    rw [numberValues_cons hname (by decide), numberValues_cons hopening (by decide),
      numberValues_append, numberValues_cons hclosing (by decide), items.numbers,
      Expr.numbers_call]
    exact List.append_nil _
  | .parentheses hopening inner hclosing => by
    rw [numberValues_cons hopening (by decide), numberValues_append,
      numberValues_cons hclosing (by decide), inner.numbers]
    exact List.append_nil _
  | .sign hkind _ _ operand => by
    rw [numberValues_cons hkind (by decide), operand.numbers]
    rfl
  | .number hkind hvalue => by
    unfold numberValues
    rw [List.filter_cons, if_pos (decide_eq_true hkind), List.map_cons, hvalue]
    rfl
  | .string hkind => numberValues_cons hkind (by decide) _

theorem Chained.numbers {c : Chain} {level further : Nat} {ts : List Token} {e : Expr} :
    Chained limit c level further ts e → numberValues ts = e.numbers.map some
  | .first operand => operand.numbers
  | .further left hop _ right => by
    rw [numberValues_append, numberValues_cons rfl (Chain.kind_ne_number hop), left.numbers,
      right.numbers, Expr.numbers_binary, List.map_append]

theorem Items.numbers {level : Nat} {ts : List Token} {es : List Expr} :
    Items limit level ts es → numberValues ts = (es.flatMap Expr.numbers).map some
  | .one item => by rw [item.numbers, List.flatMap_singleton]
  | .more items hcomma item => by
    rw [numberValues_append, numberValues_cons hcomma (by decide), items.numbers, item.numbers,
      List.flatMap_append, List.flatMap_singleton, List.map_append]

end

theorem Tuple.numbers {level : Nat} {ts : List Token} {es : List Expr}
    (h : Tuple limit level ts es) : numberValues ts = (es.flatMap Expr.numbers).map some := by
  cases h with
  | empty hopening hclosing =>
    rw [numberValues_cons hopening (by decide), numberValues_cons hclosing (by decide)]
    rfl
  | items hopening items hclosing =>
    rw [numberValues_cons hopening (by decide), numberValues_append,
      numberValues_cons hclosing (by decide), items.numbers]
    exact List.append_nil _

theorem Name.numberValues_eq_nil {ts : List Token} {name : String} (h : Name ts name) :
    numberValues ts = [] := by
  cases h with
  | name hkind => exact numberValues_cons hkind (by decide) _

theorem Names.numberValues_eq_nil {ts : List Token} {names : List String} (h : Names ts names) :
    numberValues ts = [] := by
  induction h with
  | one hname => exact hname.numberValues_eq_nil
  | more _ hcomma hlast ih =>
    rw [numberValues_append, numberValues_cons hcomma (by decide), ih, hlast.numberValues_eq_nil]
    rfl

theorem Table.numberValues_eq_nil {ts : List Token} {table : TableName} (h : Table ts table) :
    numberValues ts = [] := by
  cases h with
  | plain hname => exact hname.numberValues_eq_nil
  | qualified hdatabase hperiod htable =>
    rw [numberValues_append, numberValues_cons hperiod (by decide), hdatabase.numberValues_eq_nil,
      htable.numberValues_eq_nil]
    rfl

theorem Order.numbers {ts : List Token} {e : Expr} (h : Order limit ts e) :
    numberValues ts = e.numbers.map some := by
  cases h with
  | order hword hexpression => rw [numberValues_keyword hword, hexpression.numbers]

/-- A clause has the numbers of its content. -/
theorem Clause.numbers {α : Type} {word : Keyword} {content : List Token → α → Prop}
    {numbers : α → List Int} {ts : List Token} {clause : Option α}
    (h : Clause word content ts clause)
    (hcontent : ∀ us a, content us a → numberValues us = (numbers a).map some) :
    numberValues ts = (clause.toList.flatMap numbers).map some := by
  cases h with
  | absent => rfl
  | present hword ha =>
    rw [numberValues_keyword hword, hcontent _ _ ha, Option.toList_some, List.flatMap_singleton]

/-- The numbers of a statement are the values of its number tokens. -/
theorem Sentence.numbers {ts : List Token} {s : Statement} (h : Sentence limit ts s) :
    numberValues ts = s.numbers.map some := by
  have hend : ∀ {last : Token}, last.kind = .semicolon → numberValues [last] = [] :=
    fun hlast => numberValues_cons hlast (by decide) _
  cases h with
  | use hword hname hlast =>
    rw [numberValues_keyword hword, numberValues_append, hname.numberValues_eq_nil, hend hlast]
    rfl
  | @select _ _ _ us _ _ _ _ _ _ hword hitems hsource hcondition horder hlast =>
    have hfrom : numberValues us = [] := by
      cases hsource with
      | absent => rfl
      | present hfrom htable => rw [numberValues_keyword hfrom, htable.numberValues_eq_nil]
    rw [numberValues_keyword hword, numberValues_append, hitems.numbers, numberValues_append, hfrom,
      numberValues_append, hcondition.numbers fun _ _ => Derives.numbers, numberValues_append,
      horder.numbers fun _ _ => Order.numbers, hend hlast]
    simp only [Statement.numbers, Statement.expressions, List.flatMap_append, List.map_append,
      List.nil_append, List.append_nil]
  | insert hword hinto htable hopening hcolumns hclosing hrow hvalues hlast =>
    rw [numberValues_keyword hword, numberValues_keyword hinto, numberValues_append,
      htable.numberValues_eq_nil, numberValues_cons hopening (by decide), numberValues_append,
      hcolumns.numberValues_eq_nil, numberValues_cons hclosing (by decide),
      numberValues_keyword hrow, numberValues_append, hvalues.numbers, hend hlast, List.append_nil]
    rfl
  | delete hword hsource htable hfilter hcondition hlast =>
    rw [numberValues_keyword hword, numberValues_keyword hsource, numberValues_append,
      htable.numberValues_eq_nil, numberValues_keyword hfilter, numberValues_append,
      hcondition.numbers, hend hlast, List.append_nil]
    show _ = ([_].flatMap Expr.numbers).map some
    rw [List.flatMap_singleton]
    rfl

/-- The numbers of statements are the values of their number tokens. -/
theorem Sentences.numbers {ts : List Token} {forest : List Statement}
    (h : Sentences limit ts forest) :
    numberValues ts = (forest.flatMap Statement.numbers).map some := by
  induction h with
  | nil => rfl
  | cons first _ ih =>
    rw [numberValues_append, first.numbers, ih, List.flatMap_cons, List.map_append]

end Grammar

end SqlForest
