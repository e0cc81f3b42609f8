import SqlForest.Parse.Script

/-!
# The grammar as derivations

What the tokens of a script may be, said without the rules that read them.  `Derives` has one
constructor for each production of expressions, `Sentence` one for each kind of statement, and
`Sentences` puts statements one behind the other.

A derivation counts levels of nesting.  An expression that occurs at a level has its first operand
one level below.  Each further operand of a chain is a level below the one before it.  The operand
of `NOT`, the operand of a sign and the right operand of a product are a level below the phrase
that they occur in.  No level of a derivation is greater than its `limit`.
-/

namespace SqlForest

namespace Grammar

/-! ## Expressions -/

/-- The kinds of phrase that make up expressions, from the loosest to the tightest. -/
inductive Phrase
  | expression
  | disjunct
  | conjunct
  | nullCheck
  | comparison
  | comparable
  | term
  | factor
deriving DecidableEq, Repr

/-- The phrases that join any number of operands, which are grouped to the left. -/
inductive Chain
  | disjunction
  | conjunction
  | comparison
  | sum
deriving DecidableEq, Repr

/-- What a chain joins. -/
def Chain.operand : Chain → Phrase
  | disjunction => .disjunct
  | conjunction => .conjunct
  | comparison => .comparable
  | sum => .term

/-- The operator of a chain that a token stands for. -/
def Chain.operator? : Chain → Token → Option BinaryOp
  | disjunction => Token.disjunction?
  | conjunction => Token.conjunction?
  | comparison => Token.operator? BinaryOp.comparisons
  | sum => Token.operator? BinaryOp.sums

mutual

/-- The tokens form a phrase at the given level, which denotes the expression. -/
inductive Derives (limit : Nat) : Phrase → (level : Nat) → List Token → Expr → Prop
  | expression {level further : Nat} {ts : List Token} {e : Expr} (within : level < limit)
      (chain : Chained limit .disjunction (level + 1) further ts e) :
      Derives limit .expression level ts e
  | disjunct {level further : Nat} {ts : List Token} {e : Expr}
      (chain : Chained limit .conjunction level further ts e) :
      Derives limit .disjunct level ts e
  | negation {level : Nat} {not : Token} {ts : List Token} {e : Expr}
      (hnot : not.keyword? = some .NOT) (within : level < limit)
      (operand : Derives limit .conjunct (level + 1) ts e) :
      Derives limit .conjunct level (not :: ts) (.unary .not e)
  | conjunct {level : Nat} {ts : List Token} {e : Expr}
      (check : Derives limit .nullCheck level ts e) : Derives limit .conjunct level ts e
  | isNull {level : Nat} {is null : Token} {ts : List Token} {e : Expr}
      (operand : Derives limit .comparison level ts e) (his : is.keyword? = some .IS)
      (hnull : null.keyword? = some .NULL) :
      Derives limit .nullCheck level (ts ++ [is, null]) (.nullCheck e false)
  | isNotNull {level : Nat} {is not null : Token} {ts : List Token} {e : Expr}
      (operand : Derives limit .comparison level ts e) (his : is.keyword? = some .IS)
      (hnot : not.keyword? = some .NOT) (hnull : null.keyword? = some .NULL) :
      Derives limit .nullCheck level (ts ++ [is, not, null]) (.nullCheck e true)
  | nullCheck {level : Nat} {ts : List Token} {e : Expr}
      (operand : Derives limit .comparison level ts e) : Derives limit .nullCheck level ts e
  | comparison {level further : Nat} {ts : List Token} {e : Expr}
      (chain : Chained limit .comparison level further ts e) :
      Derives limit .comparison level ts e
  | comparable {level further : Nat} {ts : List Token} {e : Expr}
      (chain : Chained limit .sum level further ts e) : Derives limit .comparable level ts e
  | product {level : Nat} {sign : Token} {op : BinaryOp} {ts us : List Token} {l r : Expr}
      (left : Derives limit .factor level ts l) (hop : sign.operator? BinaryOp.products = some op)
      (within : level < limit) (right : Derives limit .term (level + 1) us r) :
      Derives limit .term level (ts ++ sign :: us) (.binary op l r)
  | term {level : Nat} {ts : List Token} {e : Expr} (factor : Derives limit .factor level ts e) :
      Derives limit .term level ts e
  | name {level : Nat} {name : Token} (hname : name.kind = .identifier) :
      Derives limit .factor level [name] (.identifier name.lexeme)
  | emptyCall {level : Nat} {name opening closing : Token} (hname : name.kind = .identifier)
      (hopening : opening.kind = .leftParen) (hclosing : closing.kind = .rightParen) :
      Derives limit .factor level [name, opening, closing] (.call name.lexeme [])
  | call {level : Nat} {name opening closing : Token} {ts : List Token} {es : List Expr}
      (hname : name.kind = .identifier) (hopening : opening.kind = .leftParen)
      (items : Items limit level ts es) (hclosing : closing.kind = .rightParen) :
      Derives limit .factor level (name :: opening :: (ts ++ [closing])) (.call name.lexeme es)
  | parentheses {level : Nat} {opening closing : Token} {ts : List Token} {e : Expr}
      (hopening : opening.kind = .leftParen) (inner : Derives limit .expression level ts e)
      (hclosing : closing.kind = .rightParen) :
      Derives limit .factor level (opening :: (ts ++ [closing])) e
  | sign {level : Nat} {sign : Token} {op : UnaryOp} {ts : List Token} {e : Expr}
      (hkind : sign.kind = .operator) (hop : UnaryOp.sign? sign.lexeme = some op)
      (within : level < limit) (operand : Derives limit .factor (level + 1) ts e) :
      Derives limit .factor level (sign :: ts) (.unary op e)
  | number {level : Nat} {number : Token} {value : Int} (hkind : number.kind = .number)
      (hvalue : Integer.ofText? number.lexeme = some value) :
      Derives limit .factor level [number] (.number value)
  | string {level : Nat} {string : Token} (hkind : string.kind = .string) :
      Derives limit .factor level [string] (.string string.lexeme)

/-- The tokens form a chain whose first operand is at the given level and is followed by as many
`further` operands. -/
inductive Chained (limit : Nat) : Chain → (level further : Nat) → List Token → Expr → Prop
  | first {c : Chain} {level : Nat} {ts : List Token} {e : Expr}
      (operand : Derives limit c.operand level ts e) : Chained limit c level 0 ts e
  | further {c : Chain} {level further : Nat} {joint : Token} {op : BinaryOp}
      {ts us : List Token} {l r : Expr} (left : Chained limit c level further ts l)
      (hop : c.operator? joint = some op) (within : level + further < limit)
      (right : Derives limit c.operand (level + further + 1) us r) :
      Chained limit c level (further + 1) (ts ++ joint :: us) (.binary op l r)

/-- The tokens form expressions at the given level with commas between them. -/
inductive Items (limit : Nat) : (level : Nat) → List Token → List Expr → Prop
  | one {level : Nat} {ts : List Token} {e : Expr} (item : Derives limit .expression level ts e) :
      Items limit level ts [e]
  | more {level : Nat} {comma : Token} {ts us : List Token} {e : Expr} {es : List Expr}
      (items : Items limit level ts es) (hcomma : comma.kind = .comma)
      (item : Derives limit .expression level us e) :
      Items limit level (ts ++ comma :: us) (es ++ [e])

end

/-- The tokens form the items of a tuple in parentheses. -/
inductive Tuple (limit level : Nat) : List Token → List Expr → Prop
  | empty {opening closing : Token} (hopening : opening.kind = .leftParen)
      (hclosing : closing.kind = .rightParen) : Tuple limit level [opening, closing] []
  | items {opening closing : Token} {ts : List Token} {es : List Expr}
      (hopening : opening.kind = .leftParen) (items : Items limit level ts es)
      (hclosing : closing.kind = .rightParen) :
      Tuple limit level (opening :: (ts ++ [closing])) es

/-! ## Statements -/

/-- The token is a name. -/
inductive Name : List Token → String → Prop
  | name {t : Token} (h : t.kind = .identifier) : Name [t] t.lexeme

/-- The tokens form names with commas between them. -/
inductive Names : List Token → List String → Prop
  | one {ts : List Token} {name : String} (h : Name ts name) : Names ts [name]
  | more {comma : Token} {ts us : List Token} {name : String} {names : List String}
      (h : Names ts names) (hcomma : comma.kind = .comma) (last : Name us name) :
      Names (ts ++ comma :: us) (names ++ [name])

/-- The tokens name a table. -/
inductive Table : List Token → TableName → Prop
  | plain {ts : List Token} {table : String} (h : Name ts table) : Table ts ⟨none, table⟩
  | qualified {period : Token} {ts us : List Token} {database table : String}
      (hdatabase : Name ts database) (hperiod : period.kind = .period) (htable : Name us table) :
      Table (ts ++ period :: us) ⟨some database, table⟩

/-- The tokens form a clause that its keyword introduces, or there is no such clause. -/
inductive Clause {α : Type} (word : Keyword) (content : List Token → α → Prop) :
    List Token → Option α → Prop
  | absent : Clause word content [] none
  | present {t : Token} {ts : List Token} {a : α} (hword : t.keyword? = some word)
      (h : content ts a) : Clause word content (t :: ts) (some a)

/-- The tokens form the expression of a statement by which rows are ordered. -/
inductive Order (limit : Nat) : List Token → Expr → Prop
  | order {t : Token} {ts : List Token} {e : Expr} (hword : t.keyword? = some .BY)
      (h : Derives limit .expression 0 ts e) : Order limit (t :: ts) e

/-- The tokens form a statement. -/
inductive Sentence (limit : Nat) : List Token → Statement → Prop
  | use {word last : Token} {ts : List Token} {database : String}
      (hword : word.keyword? = some .USE) (hname : Name ts database)
      (hlast : last.kind = .semicolon) : Sentence limit (word :: (ts ++ [last])) (.use database)
  | select {word last : Token} {ts us vs ws : List Token} {items : List Expr}
      {source : Option TableName} {condition order : Option Expr}
      (hword : word.keyword? = some .SELECT) (hitems : Items limit 0 ts items)
      (hsource : Clause .FROM Table us source)
      (hcondition : Clause .WHERE (Derives limit .expression 0) vs condition)
      (horder : Clause .ORDER (Order limit) ws order) (hlast : last.kind = .semicolon) :
      Sentence limit (word :: (ts ++ (us ++ (vs ++ (ws ++ [last])))))
        (.select ⟨items, source, condition, order⟩)
  | insert {word into opening closing row last : Token} {ts us vs : List Token}
      {table : TableName} {columns : List String} {values : List Expr}
      (hword : word.keyword? = some .INSERT) (hinto : into.keyword? = some .INTO)
      (htable : Table ts table) (hopening : opening.kind = .leftParen)
      (hcolumns : Names us columns) (hclosing : closing.kind = .rightParen)
      (hrow : row.keyword? = some .VALUES) (hvalues : Tuple limit 0 vs values)
      (hlast : last.kind = .semicolon) :
      Sentence limit
        (word :: into :: (ts ++ opening :: (us ++ closing :: row :: (vs ++ [last]))))
        (.insert ⟨table, columns, values⟩)
  | delete {word source filter last : Token} {ts us : List Token} {table : TableName}
      {condition : Expr} (hword : word.keyword? = some .DELETE)
      (hsource : source.keyword? = some .FROM) (htable : Table ts table)
      (hfilter : filter.keyword? = some .WHERE)
      (hcondition : Derives limit .expression 0 us condition)
      (hlast : last.kind = .semicolon) :
      Sentence limit (word :: source :: (ts ++ filter :: (us ++ [last])))
        (.delete ⟨table, condition⟩)

/-- The tokens form statements, one behind the other. -/
inductive Sentences (limit : Nat) : List Token → List Statement → Prop
  | nil : Sentences limit [] []
  | cons {ts us : List Token} {statement : Statement} {statements : List Statement}
      (first : Sentence limit ts statement) (later : Sentences limit us statements) :
      Sentences limit (ts ++ us) (statement :: statements)

end Grammar

end SqlForest
