import SqlForest.Json
import SqlForest.Statement

/-!
# Statements as JSON

Every statement and every expression becomes an object with one member, whose key tells its form.
-/

namespace SqlForest

open Json (null bool number string array object)

/-- The key of a binary operator. -/
def BinaryOp.key : BinaryOp → String
  | or => "Or"
  | and => "And"
  | equal => "Eq"
  | notEqual => "NotEq"
  | less => "Lt"
  | greater => "Gt"
  | lessEqual => "LtEq"
  | greaterEqual => "GtEq"
  | notLess => "NotLt"
  | notGreater => "NotGt"
  | add => "Add"
  | subtract => "Sub"
  | multiply => "Mul"
  | divide => "Div"
  | modulo => "Mod"

/-- The binary operator that has the given key. -/
def BinaryOp.ofKey? (key : String) : Option BinaryOp :=
  all.find? fun op => op.key = key

/-- The key of a unary operator. -/
def UnaryOp.key : UnaryOp → String
  | not => "Not"
  | plus => "Plus"
  | minus => "Minus"

/-- The unary operator that has the given key. -/
def UnaryOp.ofKey? (key : String) : Option UnaryOp :=
  all.find? fun op => op.key = key

/-- A value that may be left out. -/
def Json.optional {α : Type} (json : α → Json) : Option α → Json
  | some a => json a
  | none => null

namespace Expr

mutual

/-- An expression as JSON. -/
def json : Expr → Json
  | identifier name => object [("Identifier", .string name)]
  | number value => object [("NumConstant", .number value)]
  | string body => object [("StringConstant", .string body)]
  | call name arguments =>
    object [("FunctionApplication",
      object [("name", .string name), ("args", array (jsons arguments))])]
  | binary op left right =>
    object [("BinOp",
      object [("op", .string op.key), ("left", json left), ("right", json right)])]
  | unary op operand =>
    object [("UnOp", object [("op", .string op.key), ("operand", json operand)])]
  | nullCheck operand negated =>
    object [("IsNullCheck", object [("operand", json operand), ("negated", bool negated)])]

/-- Several expressions as JSON. -/
def jsons : List Expr → List Json
  | [] => []
  | e :: es => json e :: jsons es

end

theorem jsons_eq_map (es : List Expr) : jsons es = es.map json := by
  induction es with
  | nil => rw [jsons]; rfl
  | cons e es ih => rw [jsons, ih]; rfl

end Expr

/-- The name of a table as JSON. -/
def TableName.json (name : TableName) : Json :=
  object [("database", Json.optional string name.database), ("table", string name.table)]

namespace Statement

/-- A statement as JSON. -/
def json : Statement → Json
  | use database => object [("Use", object [("database_name", string database)])]
  | select query =>
    object [("Select", object [
      ("select_list", array (query.items.map Expr.json)),
      ("from", Json.optional TableName.json query.source),
      ("where_condition", Json.optional Expr.json query.condition),
      ("order_by", Json.optional Expr.json query.order)])]
  | insert insertion =>
    object [("Insert", object [
      ("into_table", insertion.table.json),
      ("columns", array (insertion.columns.map string)),
      ("values", array (insertion.values.map Expr.json))])]
  | delete deletion =>
    object [("Delete", object [
      ("from_table", deletion.table.json),
      ("where_condition", deletion.condition.json)])]

/-- The JSON text of a forest. -/
def jsonText (forest : List Statement) : String :=
  (array (forest.map json)).text

end Statement

end SqlForest
