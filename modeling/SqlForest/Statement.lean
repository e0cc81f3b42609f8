import SqlForest.Expr
import SqlForest.Keyword

/-!
# Statements

The four kinds of statement.  A text is read into a forest: the list of its statements.
-/

namespace SqlForest

/-- A table, with the database it belongs to if that is given. -/
structure TableName where
  database : Option String
  table : String
deriving DecidableEq, Repr

/-- A query.  Its source, condition and order may be left out. -/
structure Select where
  items : List Expr
  source : Option TableName
  condition : Option Expr
  order : Option Expr
deriving DecidableEq, Repr

/-- The insertion of one row. -/
structure Insert where
  table : TableName
  columns : List String
  values : List Expr
deriving DecidableEq, Repr

/-- The deletion of the rows that meet a condition. -/
structure Delete where
  table : TableName
  condition : Expr
deriving DecidableEq, Repr

/-- A statement. -/
inductive Statement
  | use (database : String)
  | select (query : Select)
  | insert (insertion : Insert)
  | delete (deletion : Delete)
deriving DecidableEq, Repr

/-- The keyword that a statement starts with. -/
def Statement.keyword : Statement → Keyword
  | use _ => .USE
  | select _ => .SELECT
  | insert _ => .INSERT
  | delete _ => .DELETE

end SqlForest
