import SqlForest.Operator

/-!
# Expressions

The trees that the grammar reads expressions into.  Parentheses leave no trace in a tree.
-/

namespace SqlForest

/-- An expression. -/
inductive Expr
  /-- A name that stands for a value, such as a column. -/
  | identifier (name : String)
  /-- An integer. -/
  | number (value : Int)
  /-- A string, given as it is written between its quotes. -/
  | string (body : String)
  /-- A function applied to arguments. -/
  | call (name : String) (arguments : List Expr)
  /-- An operator between two operands. -/
  | binary (op : BinaryOp) (left right : Expr)
  /-- An operator in front of its operand. -/
  | unary (op : UnaryOp) (operand : Expr)
  /-- The test whether the operand is null or, when `negated`, whether it is not. -/
  | nullCheck (operand : Expr) (negated : Bool)
deriving Repr

namespace Expr

/-! ## Equality -/

mutual

/-- Whether two expressions are the same tree. -/
def same : Expr → Expr → Bool
  | identifier a, identifier b => a == b
  | number a, number b => a == b
  | string a, string b => a == b
  | call a as, call b bs => a == b && sameAll as bs
  | binary o a c, binary p b d => o == p && same a b && same c d
  | unary o a, unary p b => o == p && same a b
  | nullCheck a m, nullCheck b n => same a b && m == n
  | _, _ => false

/-- Whether two lists hold the same trees in the same order. -/
def sameAll : List Expr → List Expr → Bool
  | [], [] => true
  | a :: as, b :: bs => same a b && sameAll as bs
  | _, _ => false

end

mutual

theorem same_iff : (a b : Expr) → (same a b = true ↔ a = b)
  | identifier _, b => by cases b <;> simp [same]
  | number _, b => by cases b <;> simp [same]
  | string _, b => by cases b <;> simp [same]
  | call _ as, b => by
    cases b with
    | call _ bs => simp [same, sameAll_iff as bs]
    | _ => simp [same]
  | binary _ a c, b => by
    cases b with
    | binary _ b d => simp [same, same_iff a b, same_iff c d, and_assoc]
    | _ => simp [same]
  | unary _ a, b => by
    cases b with
    | unary _ b => simp [same, same_iff a b]
    | _ => simp [same]
  | nullCheck a _, b => by
    cases b with
    | nullCheck b _ => simp [same, same_iff a b]
    | _ => simp [same]

theorem sameAll_iff : (as bs : List Expr) → (sameAll as bs = true ↔ as = bs)
  | [], [] => by simp [sameAll]
  | [], _ :: _ => by simp [sameAll]
  | _ :: _, [] => by simp [sameAll]
  | a :: as, b :: bs => by simp [sameAll, same_iff a b, sameAll_iff as bs]

end

instance : DecidableEq Expr := fun a b =>
  decidable_of_iff _ (same_iff a b)

end Expr

end SqlForest
