import SqlForest.Expr

/-!
# Postfix construction

Expressions built on a stack: an instruction takes its operands from the top and leaves its result
there.
-/

namespace SqlForest

/-- An instruction that builds an expression. -/
inductive Postfix
  | identifier (name : String)
  | number (value : Int)
  | string (body : String)
  /-- Takes as many arguments as given, the topmost being the last one. -/
  | call (name : String) (count : Nat)
  /-- Takes the right operand, then the left one. -/
  | binary (op : BinaryOp)
  | unary (op : UnaryOp)
  | nullCheck (negated : Bool)
deriving DecidableEq, Repr

/-- The stack after an instruction, topmost expression first.  There is none if the stack holds too
few operands. -/
def Postfix.apply : Postfix → List Expr → Option (List Expr)
  | identifier name, stack => some (.identifier name :: stack)
  | number value, stack => some (.number value :: stack)
  | string body, stack => some (.string body :: stack)
  | call name count, stack =>
    if count ≤ stack.length then
      some (.call name (stack.take count).reverse :: stack.drop count)
    else none
  | binary op, right :: left :: stack => some (.binary op left right :: stack)
  | unary op, operand :: stack => some (.unary op operand :: stack)
  | nullCheck negated, operand :: stack => some (.nullCheck operand negated :: stack)
  | _, _ => none

end SqlForest
