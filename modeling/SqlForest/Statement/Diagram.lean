import SqlForest.Graph
import SqlForest.Statement

/-!
# Statements as diagrams

The tree that each statement is drawn as.  Names and strings are boxes, values and tests are
ellipses, operators are circles.
-/

namespace SqlForest

namespace Expr

mutual

/-- The tree of an expression. -/
def tree : Expr → Tree
  | identifier name => .leaf .box name
  | number value => .leaf .ellipse (Integer.text value)
  | string body => .leaf .box body
  | call name arguments => .node .ellipse name [("args", .list (trees arguments))]
  | binary op left right => .fork op.symbol (tree left) (tree right)
  | unary op operand => .node .circle op.symbol [("", tree operand)]
  | nullCheck operand false => .node .ellipse "IS NULL" [("", tree operand)]
  | nullCheck operand true => .node .ellipse "IS NOT NULL" [("", tree operand)]

/-- The trees of several expressions. -/
def trees : List Expr → List Tree
  | [] => []
  | e :: es => tree e :: trees es

end

theorem trees_eq_map (es : List Expr) : trees es = es.map tree := by
  induction es with
  | nil => rw [trees]; rfl
  | cons e es ih => rw [trees, ih]; rfl

end Expr

/-- The branch to a part, if the part is there. -/
def branch? {α : Type} (label : String) (tree : α → Tree) : Option α → List (String × Tree)
  | some a => [(label, tree a)]
  | none => []

/-- The tree of the name of a table. -/
def TableName.tree (name : TableName) : Tree :=
  .node .box "TableId" (branch? "database" (Tree.leaf .box) name.database ++
    [("table", .leaf .box name.table)])

namespace Statement

/-- The branches of a statement. -/
def branches : Statement → List (String × Tree)
  | use database => [("databaseName", .leaf .box database)]
  | select query =>
    [("selectList", .list (query.items.map Expr.tree))] ++
      branch? "from" TableName.tree query.source ++
      branch? "where" Expr.tree query.condition ++
      branch? "orderBy" Expr.tree query.order
  | insert insertion =>
    [("into", insertion.table.tree),
      ("columns", .list (insertion.columns.map (Tree.leaf .box))),
      ("values", .list (insertion.values.map Expr.tree))]
  | delete deletion =>
    [("from", deletion.table.tree), ("where", deletion.condition.tree)]

/-- The tree of a statement. -/
def tree (s : Statement) : Tree :=
  .node .box s.keyword.spelling s.branches

/-- The DOT text of a forest. -/
def dotText (forest : List Statement) : String :=
  (Tree.graph (forest.map tree)).dot

end Statement

end SqlForest
