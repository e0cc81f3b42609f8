/-!
# Operators of expressions

Binary and unary operators, and the groups into which the grammar sorts them.  Operators of one
group bind equally strongly.
-/

namespace SqlForest

/-- An operator between two operands. -/
inductive BinaryOp
  | or
  | and
  | equal
  | notEqual
  | less
  | greater
  | lessEqual
  | greaterEqual
  | notLess
  | notGreater
  | add
  | subtract
  | multiply
  | divide
  | modulo
deriving DecidableEq, Repr

namespace BinaryOp

/-- Every binary operator, from the loosest group to the tightest. -/
def all : List BinaryOp :=
  [or, and, equal, notEqual, less, greater, lessEqual, greaterEqual, notLess, notGreater, add,
    subtract, multiply, divide, modulo]

/-- The operator as it is written between its operands. -/
def symbol : BinaryOp → String
  | or => "OR"
  | and => "AND"
  | equal => "="
  | notEqual => "!="
  | less => "<"
  | greater => ">"
  | lessEqual => "<="
  | greaterEqual => ">="
  | notLess => "!<"
  | notGreater => "!>"
  | add => "+"
  | subtract => "-"
  | multiply => "*"
  | divide => "/"
  | modulo => "%"

/-- The operators that compare. -/
def comparisons : List BinaryOp :=
  [equal, notEqual, less, greater, lessEqual, greaterEqual, notLess, notGreater]

/-- The operators of sums. -/
def sums : List BinaryOp :=
  [add, subtract]

/-- The operators of products. -/
def products : List BinaryOp :=
  [multiply, divide, modulo]

/-- The operator of a group that has the given symbol. -/
def ofSymbol? (group : List BinaryOp) (symbol : String) : Option BinaryOp :=
  group.find? fun op => op.symbol = symbol

/-- Two binary operators never have the same symbol. -/
theorem symbol_injective {a b : BinaryOp} (h : a.symbol = b.symbol) : a = b := by
  revert h
  cases a <;> cases b <;> decide

end BinaryOp

/-- An operator in front of its operand. -/
inductive UnaryOp
  | not
  | plus
  | minus
deriving DecidableEq, Repr

namespace UnaryOp

/-- Every unary operator. -/
def all : List UnaryOp :=
  [not, plus, minus]

/-- The operator as it is written in front of its operand. -/
def symbol : UnaryOp → String
  | not => "NOT"
  | plus => "+"
  | minus => "-"

/-- The sign that has the given symbol. -/
def sign? (symbol : String) : Option UnaryOp :=
  [plus, minus].find? fun op => op.symbol = symbol

/-- Two unary operators never have the same symbol. -/
theorem symbol_injective {a b : UnaryOp} (h : a.symbol = b.symbol) : a = b := by
  revert h
  cases a <;> cases b <;> decide

end UnaryOp

end SqlForest
