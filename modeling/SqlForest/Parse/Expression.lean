import SqlForest.Expr
import SqlForest.Parse.Rule

/-!
# Rules for expressions

From the loosest to the tightest an expression is made of disjuncts, conjuncts, comparisons,
comparables, terms and factors:

* an expression is disjuncts joined by `OR`, and a disjunct is conjuncts joined by `AND`;
* a conjunct is `NOT` and a conjunct, or a comparison with at most one null check behind it;
* a comparison is comparables joined by comparison operators, and a comparable is terms joined by
  `+` and `-`;
* a term is a factor, or a factor, one of `*`, `/` and `%`, and a term;
* a factor is a name, a call, an expression in parentheses, a sign and a factor, or a constant.

Joined parts are grouped to the left, and only terms are grouped to the right.

An expression may be nested to a limited number of levels.  The rules of one level form a record
of type `Rules`, which is made from the rules of the level below it (`Rules.above`), so that the
recursion through all of them is one recursion on the number of levels (`Rules.ofLevels`).  The
rules below the last level only fail.
-/

namespace SqlForest

/-! ## The operators of each group -/

/-- The operator that joins disjuncts. -/
def Token.disjunction? (t : Token) : Option BinaryOp :=
  if t.keyword? = some .OR then some .or else none

/-- The operator that joins conjuncts. -/
def Token.conjunction? (t : Token) : Option BinaryOp :=
  if t.keyword? = some .AND then some .and else none

/-- The operator of the given group that a token stands for. -/
def Token.operator? (group : List BinaryOp) (t : Token) : Option BinaryOp :=
  if t.kind = .operator then BinaryOp.ofSymbol? group t.lexeme else none

/-! ## The rules of one level -/

/-- The rules of one level of nesting.  The rules named `more` read on behind a left operand. -/
structure Rules where
  disjunct : Rule Expr
  moreDisjuncts : Expr → Rule Expr
  conjunct : Rule Expr
  moreConjuncts : Expr → Rule Expr
  comparable : Rule Expr
  moreComparables : Expr → Rule Expr
  term : Rule Expr
  moreTerms : Expr → Rule Expr
  factor : Rule Expr

namespace Rule

/-- Reads further operands behind a left one.  Each of them is a level below the one before. -/
def chain (below : Rules) (operator? : Token → Option BinaryOp) (operand : Rules → Rule Expr)
    (more : Rules → Expr → Rule Expr) (left : Expr) : Rule Expr := do
  match ← accept? operator? with
  | none => pure left
  | some op =>
    let right ← operand below
    more below (.binary op left right)

/-- An expression.  Its first disjunct is a level below it. -/
def expression (below : Rules) : Rule Expr := do
  let first ← below.disjunct
  below.moreDisjuncts first

/-- Expressions in parentheses, or nothing in parentheses. -/
def tuple (below : Rules) : Rule (List Expr) := do
  let _ ← kind .leftParen
  if ← kind? .rightParen then pure []
  else
    let items ← commaSeparated (expression below)
    let _ ← kind .rightParen
    pure items

/-- What a name denotes: a call if a parenthesis follows. -/
def named (below : Rules) (name : String) : Rule Expr
  | [] => .ok (.identifier name, [])
  | token :: rest =>
    if token.kind = .leftParen then (Expr.call name <$> tuple below) (token :: rest)
    else .ok (.identifier name, token :: rest)

/-- An expression in parentheses whose first parenthesis has been read. -/
def closed (below : Rules) : Rule Expr := do
  let inner ← expression below
  let _ ← kind .rightParen
  pure inner

/-- The tightest parts of expressions. -/
def factor (below : Rules) : Rule Expr
  | [] => .error ⟨[], .expected .expression⟩
  | token :: rest =>
    match token.kind with
    | .identifier => named below token.lexeme rest
    | .leftParen => closed below rest
    | .operator =>
      match UnaryOp.sign? token.lexeme with
      | some sign => (Expr.unary sign <$> below.factor) rest
      | none => .error ⟨token :: rest, .notASign⟩
    | .number =>
      match Integer.ofText? token.lexeme with
      | some value => .ok (.number value, rest)
      | none => .error ⟨token :: rest, .numberTooLong⟩
    | .string => .ok (.string token.lexeme, rest)
    | _ => .error ⟨token :: rest, .expected .expression⟩

/-- A product, which is grouped to the right. -/
def term (below : Rules) : Rule Expr := do
  let left ← factor below
  match ← accept? (Token.operator? BinaryOp.products) with
  | none => pure left
  | some op => Expr.binary op left <$> below.term

/-- The rest of a sum. -/
def moreTerms (below : Rules) : Expr → Rule Expr :=
  chain below (Token.operator? BinaryOp.sums) Rules.term Rules.moreTerms

/-- A sum. -/
def comparable (below : Rules) : Rule Expr := do
  let first ← term below
  moreTerms below first

/-- The rest of a comparison. -/
def moreComparables (below : Rules) : Expr → Rule Expr :=
  chain below (Token.operator? BinaryOp.comparisons) Rules.comparable Rules.moreComparables

/-- A comparison of sums. -/
def comparison (below : Rules) : Rule Expr := do
  let first ← comparable below
  moreComparables below first

/-- A comparison with at most one null check behind it. -/
def nullCheck (below : Rules) : Rule Expr := do
  let operand ← comparison below
  if ← keyword? .IS then
    let negated ← keyword? .NOT
    keyword .NULL
    pure (.nullCheck operand negated)
  else pure operand

/-- A negation, or a comparison that may be checked for null. -/
def conjunct (below : Rules) : Rule Expr := do
  if ← keyword? .NOT then Expr.unary .not <$> below.conjunct
  else nullCheck below

/-- The rest of a conjunction. -/
def moreConjuncts (below : Rules) : Expr → Rule Expr :=
  chain below Token.conjunction? Rules.conjunct Rules.moreConjuncts

/-- A conjunction. -/
def disjunct (below : Rules) : Rule Expr := do
  let first ← conjunct below
  moreConjuncts below first

/-- The rest of a disjunction. -/
def moreDisjuncts (below : Rules) : Expr → Rule Expr :=
  chain below Token.disjunction? Rules.disjunct Rules.moreDisjuncts

end Rule

/-! ## Levels -/

namespace Rules

/-- The rules below the last level. -/
def tooDeep : Rules where
  disjunct := Rule.fail .nestedTooDeeply
  moreDisjuncts := fun _ => Rule.fail .nestedTooDeeply
  conjunct := Rule.fail .nestedTooDeeply
  moreConjuncts := fun _ => Rule.fail .nestedTooDeeply
  comparable := Rule.fail .nestedTooDeeply
  moreComparables := fun _ => Rule.fail .nestedTooDeeply
  term := Rule.fail .nestedTooDeeply
  moreTerms := fun _ => Rule.fail .nestedTooDeeply
  factor := Rule.fail .nestedTooDeeply

/-- The rules of the level above the given one. -/
def above (below : Rules) : Rules where
  disjunct := Rule.disjunct below
  moreDisjuncts := Rule.moreDisjuncts below
  conjunct := Rule.conjunct below
  moreConjuncts := Rule.moreConjuncts below
  comparable := Rule.comparable below
  moreComparables := Rule.moreComparables below
  term := Rule.term below
  moreTerms := Rule.moreTerms below
  factor := Rule.factor below

/-- The rules of the first of the given number of levels. -/
def ofLevels : (levels : Nat) → Rules
  | 0 => tooDeep
  | levels + 1 => above (ofLevels levels)

end Rules

end SqlForest
