import SqlForest.Expr

/-!
# Induction on expressions

The arguments of a call are a list of expressions, so the induction that comes with the type goes
through lists as well.  `Expr.induction` is the one that is meant: what holds of all arguments holds
of the call.  `Expr.Each` says something of every name and of every string of an expression.
-/

namespace SqlForest

namespace Expr

@[elab_as_elim]
theorem induction {P : Expr → Prop} (identifier : ∀ name, P (identifier name))
    (number : ∀ value, P (number value)) (string : ∀ body, P (string body))
    (call : ∀ name arguments, (∀ e ∈ arguments, P e) → P (call name arguments))
    (binary : ∀ op left right, P left → P right → P (binary op left right))
    (unary : ∀ op operand, P operand → P (unary op operand))
    (nullCheck : ∀ operand negated, P operand → P (nullCheck operand negated)) (e : Expr) : P e :=
  @Expr.rec P (fun es => ∀ e ∈ es, P e) identifier number string call binary unary nullCheck nofun
    (fun _ _ he hes => List.forall_mem_cons.mpr ⟨he, hes⟩) e

/-! ## Names and strings -/

mutual

/-- Every name and every string of the expression is as described. -/
def Each (name body : String → Prop) : Expr → Prop
  | identifier n => name n
  | number _ => True
  | string s => body s
  | call n arguments => name n ∧ EachOfAll name body arguments
  | binary _ left right => Each name body left ∧ Each name body right
  | unary _ operand => Each name body operand
  | nullCheck operand _ => Each name body operand

/-- Every name and every string of the expressions is as described. -/
def EachOfAll (name body : String → Prop) : List Expr → Prop
  | [] => True
  | e :: es => Each name body e ∧ EachOfAll name body es

end

variable {name body name' body' name'' body'' : String → Prop}

theorem eachOfAll_iff {es : List Expr} : EachOfAll name body es ↔ ∀ e ∈ es, e.Each name body := by
  induction es with
  | nil => simp [EachOfAll]
  | cons e es ih => rw [EachOfAll, ih, List.forall_mem_cons]

/-- Two descriptions may be put together. -/
theorem Each.combine {e : Expr} (h : e.Each name body) (h' : e.Each name' body')
    (hname : ∀ n, name n → name' n → name'' n) (hbody : ∀ s, body s → body' s → body'' s) :
    e.Each name'' body'' := by
  induction e using Expr.induction with
  | identifier n => exact hname n h h'
  | number value => trivial
  | string s => exact hbody s h h'
  | call n arguments ih =>
    refine ⟨hname n h.1 h'.1, eachOfAll_iff.mpr ?_⟩
    intro e he
    exact ih e he (eachOfAll_iff.mp h.2 e he) (eachOfAll_iff.mp h'.2 e he)
  | binary op left right hleft hright => exact ⟨hleft h.1 h'.1, hright h.2 h'.2⟩
  | unary op operand ih => exact ih h h'
  | nullCheck operand negated ih => exact ih h h'

end Expr

end SqlForest
