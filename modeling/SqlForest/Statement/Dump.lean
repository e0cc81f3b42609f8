import SqlForest.Statement
import SqlForest.Text.Integer

/-!
# The text dump

A compact notation of statements for people to read.  It shows the tree of every expression, and
it is not SQL.
-/

namespace SqlForest

/-- Items in brackets. -/
def bracketed (items : List String) : String :=
  "[" ++ ", ".intercalate items ++ "]"

namespace Expr

mutual

/-- The dump of an expression. -/
def dump : Expr → String
  | identifier name => "Id(" ++ name ++ ")"
  | number value => "Num(" ++ Integer.text value ++ ")"
  | string body => "Str(" ++ body ++ ")"
  | call name arguments =>
    "FunctionApplication(fun=" ++ name ++ ", args=" ++ bracketed (dumps arguments) ++ ")"
  | binary op left right => "BinOp(" ++ dump left ++ "," ++ op.symbol ++ "," ++ dump right ++ ")"
  | unary op operand => "UnOp(" ++ op.symbol ++ "," ++ dump operand ++ ")"
  | nullCheck operand false => "IsNull(" ++ dump operand ++ ")"
  | nullCheck operand true => "IsNotNull(" ++ dump operand ++ ")"

/-- The dumps of several expressions. -/
def dumps : List Expr → List String
  | [] => []
  | e :: es => dump e :: dumps es

end

theorem dumps_eq_map (es : List Expr) : dumps es = es.map dump := by
  induction es with
  | nil => rw [dumps]; rfl
  | cons e es ih => rw [dumps, ih]; rfl

end Expr

/-- The dump of the name of a table. -/
def TableName.dump : TableName → String
  | ⟨some database, table⟩ => "TableId(" ++ database ++ "." ++ table ++ ")"
  | ⟨none, table⟩ => "TableId(" ++ table ++ ")"

/-- The dump of a part that may be left out. -/
def dumpOptional {α : Type} (dump : α → String) : Option α → String
  | some a => dump a
  | none => "(omitted)"

namespace Statement

/-- The dump of a statement. -/
def dump : Statement → String
  | use database => "Use(databaseName=" ++ database ++ ")"
  | select query =>
    "Select(\n  list=" ++ bracketed (Expr.dumps query.items)
      ++ "\n  from=" ++ dumpOptional TableName.dump query.source
      ++ "\n  where=" ++ dumpOptional Expr.dump query.condition
      ++ "\n  orderBy=" ++ dumpOptional Expr.dump query.order ++ "\n)"
  | insert insertion =>
    "Insert(\n  into=" ++ insertion.table.dump
      ++ "\n  columns=" ++ bracketed insertion.columns
      ++ "\n  values=" ++ bracketed (Expr.dumps insertion.values) ++ "\n)"
  | delete deletion =>
    "Delete(\n  from=" ++ deletion.table.dump
      ++ "\n  where=" ++ deletion.condition.dump ++ "\n)"

/-- The dump of a forest, with each statement on lines of its own. -/
def dumpAll (forest : List Statement) : String :=
  "\n".intercalate (forest.map dump)

end Statement

end SqlForest
