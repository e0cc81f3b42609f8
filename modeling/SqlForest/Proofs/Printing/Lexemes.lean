import SqlForest.Proofs.Grammar.Derivation
import SqlForest.Proofs.Text.Integer
import SqlForest.Proofs.Token.Lexeme

/-!
# Statements in writing

`Statement.sql` writes a statement as a text that the grammar can read.  An operand stands in
parentheses exactly when it is looser than its place asks for: a chain asks for its own kind of
phrase on the left and for an operand on the right, a product for a factor on the left and for a
term on the right.  One blank stands between any two lexemes.

A statement is `Printable` if its names, numbers and strings can be written at all and its lists
that must not be empty are not.  Then all its lexemes are well formed (`Statement.spelled_lexemes`).
-/

namespace SqlForest

/-! ## Phrases and places -/

namespace Grammar

/-- How tightly a phrase holds together. -/
def Phrase.tightness : Phrase → Nat
  | expression => 0
  | disjunct => 1
  | conjunct => 2
  | nullCheck => 3
  | comparison => 4
  | comparable => 5
  | term => 6
  | factor => 7

/-- The phrase that is made of the operands of a chain. -/
def Chain.phrase : Chain → Phrase
  | disjunction => .expression
  | conjunction => .disjunct
  | comparison => .comparison
  | sum => .comparable

end Grammar

open Grammar

namespace BinaryOp

/-- The chain whose operands the operator joins.  The operators of products join none. -/
def chain? : BinaryOp → Option Chain
  | or => some .disjunction
  | and => some .conjunction
  | equal | notEqual | less | greater | lessEqual | greaterEqual | notLess | notGreater =>
    some .comparison
  | add | subtract => some .sum
  | multiply | divide | modulo => none

/-- The phrase that the operator forms with its operands. -/
def phrase (op : BinaryOp) : Phrase :=
  match op.chain? with
  | some c => c.phrase
  | none => .term

/-- The phrase that must stand to the left of the operator. -/
def leftPlace (op : BinaryOp) : Phrase :=
  match op.chain? with
  | some c => c.phrase
  | none => .factor

/-- The phrase that must stand to the right of the operator. -/
def rightPlace (op : BinaryOp) : Phrase :=
  match op.chain? with
  | some c => c.operand
  | none => .term

/-- The operator in writing: `OR` and `AND` are keywords. -/
def lexeme (op : BinaryOp) : Lexeme :=
  match op with
  | or | and => ⟨.keyword, op.symbol⟩
  | _ => ⟨.operator, op.symbol⟩

end BinaryOp

namespace UnaryOp

/-- The phrase that the operator forms with its operand, which must be such a phrase as well. -/
def phrase : UnaryOp → Phrase
  | not => .conjunct
  | plus | minus => .factor

/-- The operator in writing: `NOT` is a keyword. -/
def lexeme (op : UnaryOp) : Lexeme :=
  match op with
  | not => ⟨.keyword, op.symbol⟩
  | _ => ⟨.operator, op.symbol⟩

end UnaryOp

/-- The phrase that an expression is without parentheses around it. -/
def Expr.phrase : Expr → Phrase
  | identifier _ | number _ | string _ | call _ _ => .factor
  | binary op _ _ => op.phrase
  | unary op _ => op.phrase
  | nullCheck _ _ => .nullCheck

/-! ## Lexemes -/

/-- The keyword in writing. -/
def Keyword.lexeme (word : Keyword) : Lexeme :=
  ⟨.keyword, word.spelling⟩

namespace Lexeme

def opening : Lexeme := ⟨.leftParen, "("⟩

def closing : Lexeme := ⟨.rightParen, ")"⟩

def comma : Lexeme := ⟨.comma, ","⟩

def period : Lexeme := ⟨.period, "."⟩

def semicolon : Lexeme := ⟨.semicolon, ";"⟩

/-- A name in writing. -/
def name (n : String) : Lexeme :=
  ⟨.identifier, n⟩

/-- A phrase in writing as it stands in a place: in parentheses if it is too loose for that. -/
def enclosed (place phrase : Phrase) (ls : List Lexeme) : List Lexeme :=
  if phrase.tightness < place.tightness then opening :: (ls ++ [closing]) else ls

/-- Items in writing, with commas between them. -/
def separated : List (List Lexeme) → List Lexeme
  | [] => []
  | [item] => item
  | item :: items => item ++ comma :: separated items

end Lexeme

open Lexeme

namespace Expr

mutual

/-- An expression in writing, without parentheses around it. -/
def lexemes : Expr → List Lexeme
  | identifier n => [name n]
  | number value => [⟨.number, Integer.text value⟩]
  | string body => [⟨.string, body⟩]
  | call n arguments => name n :: opening :: (separated (lexemesOfAll arguments) ++ [closing])
  | binary op left right =>
    enclosed op.leftPlace left.phrase left.lexemes ++
      op.lexeme :: enclosed op.rightPlace right.phrase right.lexemes
  | unary op operand => op.lexeme :: enclosed op.phrase operand.phrase operand.lexemes
  | nullCheck operand negated =>
    enclosed .comparison operand.phrase operand.lexemes ++
      if negated then [Keyword.IS.lexeme, Keyword.NOT.lexeme, Keyword.NULL.lexeme]
      else [Keyword.IS.lexeme, Keyword.NULL.lexeme]

/-- Each of some expressions in writing. -/
def lexemesOfAll : List Expr → List (List Lexeme)
  | [] => []
  | e :: es => lexemes e :: lexemesOfAll es

end

mutual

/-- The number of nodes of an expression. -/
def size : Expr → Nat
  | identifier _ | number _ | string _ => 1
  | call _ arguments => 1 + sizeOfAll arguments
  | binary _ left right => 1 + left.size + right.size
  | unary _ operand => 1 + operand.size
  | nullCheck operand _ => 1 + operand.size

/-- The number of nodes of some expressions. -/
def sizeOfAll : List Expr → Nat
  | [] => 0
  | e :: es => size e + sizeOfAll es

end

mutual

/-- The names, numbers and strings of the expression can be written. -/
def Printable : Expr → Prop
  | identifier n => IsName n
  | number value => 0 ≤ value ∧ value ≤ Integer.greatest
  | string body => isStringBody body.toList
  | call n arguments => IsName n ∧ AllPrintable arguments
  | binary _ left right => left.Printable ∧ right.Printable
  | unary _ operand => operand.Printable
  | nullCheck operand _ => operand.Printable

/-- All of the expressions are printable. -/
def AllPrintable : List Expr → Prop
  | [] => True
  | e :: es => Printable e ∧ AllPrintable es

end

theorem lexemesOfAll_eq_map (es : List Expr) : lexemesOfAll es = es.map lexemes := by
  induction es with
  | nil => rfl
  | cons e es ih => rw [lexemesOfAll, ih, List.map_cons]

theorem allPrintable_iff {es : List Expr} : AllPrintable es ↔ ∀ e ∈ es, e.Printable := by
  induction es with
  | nil => simp [AllPrintable]
  | cons e es ih => rw [AllPrintable, ih, List.forall_mem_cons]

end Expr

namespace TableName

/-- A table in writing. -/
def lexemes (t : TableName) : List Lexeme :=
  match t.database with
  | some database => [name database, period, name t.table]
  | none => [name t.table]

/-- The names that a table is given by. -/
def names (t : TableName) : List String :=
  t.database.toList ++ [t.table]

end TableName

/-- A clause in writing: its keyword in front of what it holds, or nothing. -/
def clauseLexemes {α : Type} (word : Keyword) (content : α → List Lexeme) :
    Option α → List Lexeme
  | none => []
  | some a => word.lexeme :: content a

namespace Statement

/-- A statement in writing. -/
def lexemes : Statement → List Lexeme
  | use database => [Keyword.USE.lexeme, name database, semicolon]
  | select query =>
    Keyword.SELECT.lexeme :: (separated (query.items.map Expr.lexemes) ++
      (clauseLexemes .FROM TableName.lexemes query.source ++
        (clauseLexemes .WHERE Expr.lexemes query.condition ++
          (clauseLexemes .ORDER (fun e => Keyword.BY.lexeme :: e.lexemes) query.order ++
            [semicolon]))))
  | insert insertion =>
    Keyword.INSERT.lexeme :: Keyword.INTO.lexeme :: (insertion.table.lexemes ++
      opening :: (separated (insertion.columns.map fun n => [name n]) ++
        closing :: Keyword.VALUES.lexeme ::
          (opening :: (separated (insertion.values.map Expr.lexemes) ++ [closing]) ++
            [semicolon])))
  | delete deletion =>
    Keyword.DELETE.lexeme :: Keyword.FROM.lexeme :: (deletion.table.lexemes ++
      Keyword.WHERE.lexeme :: (deletion.condition.lexemes ++ [semicolon]))

/-- The text of a statement. -/
def sql (s : Statement) : String :=
  String.ofList (spaced s.lexemes)

/-- The expressions of a statement that are not part of another one. -/
def expressions : Statement → List Expr
  | use _ => []
  | select query => query.items ++ (query.condition.toList ++ query.order.toList)
  | insert insertion => insertion.values
  | delete deletion => [deletion.condition]

/-- The names of a statement that are not part of an expression. -/
def names : Statement → List String
  | use database => [database]
  | select query => query.source.toList.flatMap TableName.names
  | insert insertion => insertion.table.names ++ insertion.columns
  | delete deletion => deletion.table.names

/-- The select list or the column list of the statement is not empty. -/
def Filled : Statement → Prop
  | select query => query.items ≠ []
  | insert insertion => insertion.columns ≠ []
  | use _ | delete _ => True

/-- The statement can be written. -/
structure Printable (s : Statement) : Prop where
  names : ∀ n ∈ s.names, IsName n
  expressions : ∀ e ∈ s.expressions, e.Printable
  filled : s.Filled

end Statement

/-! ## All lexemes are well formed -/

/-- All of the lexemes are well formed. -/
def Spelled (ls : List Lexeme) : Prop :=
  ∀ l ∈ ls, l.WellFormed

section Spelled

variable {l : Lexeme} {ls ms : List Lexeme}

theorem spelled_nil : Spelled [] := by
  intro l hl
  simp at hl

theorem Spelled.cons (hl : l.WellFormed) (h : Spelled ls) : Spelled (l :: ls) :=
  List.forall_mem_cons.mpr ⟨hl, h⟩

theorem Spelled.append (h : Spelled ls) (h' : Spelled ms) : Spelled (ls ++ ms) :=
  List.forall_mem_append.mpr ⟨h, h'⟩

theorem spelled_singleton (hl : l.WellFormed) : Spelled [l] :=
  spelled_nil.cons hl

theorem wellFormed_opening : opening.WellFormed :=
  .punctuation (c := '(') rfl

theorem wellFormed_closing : closing.WellFormed :=
  .punctuation (c := ')') rfl

theorem wellFormed_comma : comma.WellFormed :=
  .punctuation (c := ',') rfl

theorem wellFormed_period : period.WellFormed :=
  .punctuation (c := '.') rfl

theorem wellFormed_semicolon : semicolon.WellFormed :=
  .punctuation (c := ';') rfl

theorem wellFormed_keyword (word : Keyword) : word.lexeme.WellFormed :=
  .keyword word

theorem wellFormed_binary (op : BinaryOp) : op.lexeme.WellFormed := by
  cases op with
  | or => exact wellFormed_keyword .OR
  | and => exact wellFormed_keyword .AND
  | _ => exact .operator (by decide)

theorem wellFormed_unary (op : UnaryOp) : op.lexeme.WellFormed := by
  cases op with
  | not => exact wellFormed_keyword .NOT
  | _ => exact .operator (by decide)

/-- An integer that is not negative is written with digits only, and denoted by them. -/
theorem wellFormed_number {value : Int} (h : 0 ≤ value) (hgreatest : value ≤ Integer.greatest) :
    Lexeme.WellFormed ⟨.number, Integer.text value⟩ := by
  have hvalue := Integer.ofText?_text ⟨Int.le_trans (by decide) h, hgreatest⟩
  obtain ⟨n, rfl⟩ := Int.eq_ofNat_of_zero_le h
  refine .number (Integer.naturalText_ne_nil n) (Integer.naturalText_isDigit n) ?_
  exact Option.isSome_of_eq_some hvalue

theorem spelled_enclosed (place phrase : Phrase) (h : Spelled ls) :
    Spelled (enclosed place phrase ls) := by
  unfold enclosed
  split
  · exact (h.append (spelled_singleton wellFormed_closing)).cons wellFormed_opening
  · exact h

theorem spelled_separated {items : List (List Lexeme)} (h : ∀ item ∈ items, Spelled item) :
    Spelled (separated items) := by
  fun_induction separated items with
  | case1 => exact spelled_nil
  | case2 item => exact h item List.mem_cons_self
  | case3 item items _ ih =>
    obtain ⟨hitem, hitems⟩ := List.forall_mem_cons.mp h
    exact hitem.append ((ih hitems).cons wellFormed_comma)

end Spelled

namespace Expr

mutual

theorem spelled_lexemes : (e : Expr) → e.Printable → Spelled e.lexemes
  | identifier _, h => spelled_singleton (.identifier h)
  | number _, h => spelled_singleton (wellFormed_number h.1 h.2)
  | string _, h => spelled_singleton (.string h)
  | call _ arguments, h => by
    have hitems := spelled_separated (spelled_lexemesOfAll arguments h.2)
    have htuple := (hitems.append (spelled_singleton wellFormed_closing)).cons wellFormed_opening
    exact htuple.cons (.identifier h.1)
  | binary op left right, h => by
    have hleft := spelled_enclosed op.leftPlace left.phrase (spelled_lexemes left h.1)
    have hright := spelled_enclosed op.rightPlace right.phrase (spelled_lexemes right h.2)
    exact hleft.append (hright.cons (wellFormed_binary op))
  | unary op operand, h => by
    have hoperand := spelled_enclosed op.phrase operand.phrase (spelled_lexemes operand h)
    exact hoperand.cons (wellFormed_unary op)
  | nullCheck operand negated, h => by
    have hoperand := spelled_enclosed .comparison operand.phrase (spelled_lexemes operand h)
    have hnull := spelled_singleton (wellFormed_keyword .NULL)
    cases negated with
    | true =>
      have hnot := hnull.cons (wellFormed_keyword .NOT)
      exact hoperand.append (hnot.cons (wellFormed_keyword .IS))
    | false => exact hoperand.append (hnull.cons (wellFormed_keyword .IS))

theorem spelled_lexemesOfAll :
    (es : List Expr) → AllPrintable es → ∀ item ∈ lexemesOfAll es, Spelled item
  | [], _ => by simp [lexemesOfAll]
  | e :: es, h =>
    List.forall_mem_cons.mpr ⟨spelled_lexemes e h.1, spelled_lexemesOfAll es h.2⟩

end

end Expr

theorem TableName.spelled_lexemes {t : TableName} (h : ∀ n ∈ t.names, IsName n) :
    Spelled t.lexemes := by
  obtain ⟨database, table⟩ := t
  cases database with
  | none => exact spelled_singleton (.identifier (h table (by simp [names])))
  | some database =>
    have htable := spelled_singleton (.identifier (h table (by simp [names])))
    exact (htable.cons wellFormed_period).cons (.identifier (h database (by simp [names])))

theorem spelled_clause {α : Type} {content : α → List Lexeme} (word : Keyword) {clause : Option α}
    (h : ∀ a ∈ clause, Spelled (content a)) : Spelled (clauseLexemes word content clause) := by
  cases clause with
  | none => exact spelled_nil
  | some a => exact (h a rfl).cons (wellFormed_keyword word)

/-- Items that are printable are well formed in writing. -/
theorem spelled_items {es : List Expr} (h : ∀ e ∈ es, e.Printable) :
    Spelled (separated (es.map Expr.lexemes)) := by
  refine spelled_separated ?_
  rw [← Expr.lexemesOfAll_eq_map]
  exact Expr.spelled_lexemesOfAll es (Expr.allPrintable_iff.mpr h)

/-- All lexemes of a printable statement are well formed. -/
theorem Statement.spelled_lexemes {s : Statement} (h : s.Printable) : Spelled s.lexemes := by
  have hlast := spelled_singleton wellFormed_semicolon
  obtain ⟨hnames, hexpressions, -⟩ := h
  cases s with
  | use database =>
    have hname : IsName database := hnames database (by simp [names])
    exact (hlast.cons (.identifier hname)).cons (wellFormed_keyword .USE)
  | select query =>
    simp only [expressions, List.forall_mem_append, Option.mem_toList] at hexpressions
    obtain ⟨hitems, hcondition, horder⟩ := hexpressions
    have hby : ∀ e ∈ query.order, Spelled (Keyword.BY.lexeme :: e.lexemes) := fun e he =>
      (Expr.spelled_lexemes e (horder e he)).cons (wellFormed_keyword .BY)
    have hwhere : ∀ e ∈ query.condition, Spelled e.lexemes := fun e he =>
      Expr.spelled_lexemes e (hcondition e he)
    have hfrom : ∀ t ∈ query.source, Spelled t.lexemes := by
      intro t ht
      refine TableName.spelled_lexemes fun n hn => hnames n ?_
      exact List.mem_flatMap.mpr ⟨t, Option.mem_toList.mpr ht, hn⟩
    have hclauses := (spelled_clause .FROM hfrom).append
      ((spelled_clause .WHERE hwhere).append ((spelled_clause .ORDER hby).append hlast))
    exact ((spelled_items hitems).append hclauses).cons (wellFormed_keyword .SELECT)
  | insert insertion =>
    simp only [names, List.forall_mem_append] at hnames
    obtain ⟨htable, hcolumns⟩ := hnames
    have hclosing := spelled_singleton wellFormed_closing
    have hvalues := ((spelled_items hexpressions).append hclosing).cons wellFormed_opening
    have hrow := ((hvalues.append hlast).cons (wellFormed_keyword .VALUES)).cons wellFormed_closing
    have hlist : Spelled (separated (insertion.columns.map fun n => [name n])) := by
      refine spelled_separated ?_
      intro item hitem
      obtain ⟨n, hn, rfl⟩ := List.mem_map.mp hitem
      exact spelled_singleton (.identifier (hcolumns n hn))
    have hbody := (TableName.spelled_lexemes htable).append
      ((hlist.append hrow).cons wellFormed_opening)
    exact (hbody.cons (wellFormed_keyword .INTO)).cons (wellFormed_keyword .INSERT)
  | delete deletion =>
    have hcondition := Expr.spelled_lexemes deletion.condition
      (hexpressions _ (by simp [expressions]))
    have hfilter := (hcondition.append hlast).cons (wellFormed_keyword .WHERE)
    have hbody := (TableName.spelled_lexemes hnames).append hfilter
    exact (hbody.cons (wellFormed_keyword .FROM)).cons (wellFormed_keyword .DELETE)

end SqlForest
