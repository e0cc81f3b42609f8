import SqlForest.Proofs.Grammar.Derivation
import SqlForest.Proofs.Rule.Sequence

/-!
# Where a phrase ends

Behind a phrase stands a token that goes on with it, or one that does not.  Which of the two is a
matter of one number: `Token.reach?` grades the tokens that may go on with a phrase, and
`Phrase.reach` is the greatest grade that goes on with a kind of phrase.  `Ends p rest` compares the
two.  Where a phrase ends, no rule of it accepts the next token (`Ends.refused`).
-/

namespace SqlForest

/-! ## Tokens that go on with a phrase -/

namespace BinaryOp

/-- What is found in a group is a member of it and has the symbol. -/
theorem mem_of_ofSymbol? {group : List BinaryOp} {symbol : String} {op : BinaryOp}
    (h : ofSymbol? group symbol = some op) : op ∈ group ∧ op.symbol = symbol := by
  refine ⟨List.mem_of_find?_eq_some h, ?_⟩
  have hop := List.find?_some h
  simpa using hop

/-- The symbol of an operator is in no other group than the operator. -/
theorem ofSymbol?_eq_none {group : List BinaryOp} {op : BinaryOp} (h : op ∉ group) :
    ofSymbol? group op.symbol = none := by
  rw [ofSymbol?, List.find?_eq_none]
  intro other hother
  have hne : other.symbol ≠ op.symbol := by
    intro heq
    rw [symbol_injective heq] at hother
    exact h hother
  simpa using hne

end BinaryOp

/-- `IS`, `AND` and `OR` are the keywords that go on with a phrase. -/
def Keyword.reach? : Keyword → Option Nat
  | IS => some 4
  | AND => some 5
  | OR => some 6
  | _ => none

namespace Token

/-- How loose a phrase must be to go on with the token: `(` belongs to a name, and an operator to
the phrases whose operands it joins. -/
def reach? (t : Token) : Option Nat :=
  match t.kind with
  | .leftParen => some 0
  | .operator =>
    if (t.operator? BinaryOp.products).isSome then some 1
    else if (t.operator? BinaryOp.sums).isSome then some 2
    else if (t.operator? BinaryOp.comparisons).isSome then some 3
    else none
  | .keyword => t.keyword?.bind Keyword.reach?
  | _ => none

theorem operator?_eq_some {group : List BinaryOp} {t : Token} {op : BinaryOp}
    (h : t.operator? group = some op) : t.kind = .operator ∧ op ∈ group ∧ op.symbol = t.lexeme := by
  obtain ⟨hkind, hop⟩ := Option.ite_none_right_eq_some.mp h
  exact ⟨hkind, BinaryOp.mem_of_ofSymbol? hop⟩

/-- A token stands for an operator of one group only. -/
theorem operator?_eq_none {group other : List BinaryOp} {t : Token} {op : BinaryOp}
    (h : t.operator? group = some op) (hother : ∀ op ∈ group, op ∉ other) :
    t.operator? other = none := by
  obtain ⟨hkind, hmem, hsymbol⟩ := operator?_eq_some h
  rw [operator?, if_pos hkind, ← hsymbol]
  exact BinaryOp.ofSymbol?_eq_none (hother op hmem)

theorem reach?_leftParen {t : Token} (h : t.kind = .leftParen) : t.reach? = some 0 := by
  unfold reach?
  rw [h]

theorem reach?_product {t : Token} {op : BinaryOp} (h : t.operator? BinaryOp.products = some op) :
    t.reach? = some 1 := by
  unfold reach?
  rw [Rule.kind_of_operator? h, h]
  rfl

theorem reach?_sum {t : Token} {op : BinaryOp} (h : t.operator? BinaryOp.sums = some op) :
    t.reach? = some 2 := by
  have hproduct : t.operator? BinaryOp.products = none := operator?_eq_none h (by decide)
  unfold reach?
  rw [Rule.kind_of_operator? h, h, hproduct]
  rfl

theorem reach?_comparison {t : Token} {op : BinaryOp}
    (h : t.operator? BinaryOp.comparisons = some op) : t.reach? = some 3 := by
  have hproduct : t.operator? BinaryOp.products = none := operator?_eq_none h (by decide)
  have hsum : t.operator? BinaryOp.sums = none := operator?_eq_none h (by decide)
  unfold reach?
  rw [Rule.kind_of_operator? h, h, hproduct, hsum]
  rfl

theorem reach?_keyword {t : Token} {word : Keyword} (h : t.keyword? = some word) :
    t.reach? = word.reach? := by
  unfold reach?
  rw [Rule.kind_of_keyword? h, h]
  rfl

theorem reach?_conjunction {t : Token} {op : BinaryOp} (h : t.conjunction? = some op) :
    t.reach? = some 5 :=
  reach?_keyword (Rule.keyword?_of_conjunction? h)

theorem reach?_disjunction {t : Token} {op : BinaryOp} (h : t.disjunction? = some op) :
    t.reach? = some 6 :=
  reach?_keyword (Rule.keyword?_of_disjunction? h)

end Token

namespace Grammar

open Rule

/-! ## The ends of phrases -/

/-- The greatest reach of a token that a phrase goes on with. -/
def Phrase.reach : Phrase → Nat
  | factor => 0
  | term => 1
  | comparable => 2
  | comparison => 3
  | nullCheck => 4
  | conjunct => 4
  | disjunct => 5
  | expression => 6

/-- The reach of the operators of a chain. -/
def Chain.reach : Chain → Nat
  | sum => 2
  | comparison => 3
  | conjunction => 5
  | disjunction => 6

theorem Chain.reach?_operator {c : Chain} {t : Token} {op : BinaryOp}
    (h : c.operator? t = some op) : t.reach? = some c.reach := by
  cases c with
  | disjunction => exact Token.reach?_disjunction h
  | conjunction => exact Token.reach?_conjunction h
  | comparison => exact Token.reach?_comparison h
  | sum => exact Token.reach?_sum h

theorem Chain.operand_reach (c : Chain) : c.operand.reach < c.reach := by
  cases c <;> decide

/-- A phrase of this kind ends in front of these tokens. -/
def Ends (p : Phrase) (rest : List Token) : Prop :=
  ∀ t ∈ rest.head?, ∀ reach, t.reach? = some reach → p.reach < reach

theorem ends_cons {p : Phrase} {t : Token} {reach : Nat} (h : t.reach? = some reach)
    (hreach : p.reach < reach) (rest : List Token) : Ends p (t :: rest) := by
  intro u hu k hk
  simp only [List.head?_cons, Option.mem_some_iff] at hu
  rw [← hu, h] at hk
  have heq : reach = k := Option.some.inj hk
  omega

/-- Every phrase ends in front of a token that belongs to none. -/
theorem ends_of_none {t : Token} (h : t.reach? = none) (p : Phrase) (rest : List Token) :
    Ends p (t :: rest) := by
  intro u hu k hk
  simp only [List.head?_cons, Option.mem_some_iff] at hu
  rw [← hu, h] at hk
  simp at hk

theorem ends_of_kind {t : Token} {k : TokenKind} (h : t.kind = k)
    (hk : k ∈ [TokenKind.comma, .semicolon, .rightParen]) (p : Phrase) (rest : List Token) :
    Ends p (t :: rest) := by
  refine ends_of_none ?_ p rest
  unfold Token.reach?
  rw [h]
  simp only [List.mem_cons, List.not_mem_nil, or_false] at hk
  rcases hk with rfl | rfl | rfl
  · rfl
  · rfl
  · rfl

theorem ends_of_keyword {t : Token} {word : Keyword} (h : t.keyword? = some word)
    (hword : word.reach? = none) (p : Phrase) (rest : List Token) : Ends p (t :: rest) := by
  refine ends_of_none ?_ p rest
  rw [Token.reach?_keyword h]
  exact hword

/-- Where a phrase ends the phrases inside it end as well. -/
theorem Ends.mono {p q : Phrase} {rest : List Token} (h : Ends p rest) (hle : q.reach ≤ p.reach) :
    Ends q rest := by
  intro t ht k hk
  have hlt := h t ht k hk
  omega

/-- Where a phrase ends no token is accepted that it goes on with. -/
theorem Ends.refused {α : Type} {p : Phrase} {rest : List Token} {f : Token → Option α}
    {reach : Nat} (h : Ends p rest) (hf : ∀ t a, f t = some a → t.reach? = some reach)
    (hle : reach ≤ p.reach) : Refused f rest := by
  intro t ht
  cases ha : f t with
  | none => rfl
  | some a =>
    have hlt := h t ht reach (hf t a ha)
    omega

end Grammar

end SqlForest
