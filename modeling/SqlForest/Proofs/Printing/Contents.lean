import SqlForest.Proofs.Grammar.Height
import SqlForest.Proofs.Printing.Accepted

/-!
# What the statements of a text hold

`Statement.parts` are all expressions of a statement, those inside other ones included.  Whatever is
printable is so with all its parts (`Expr.Printable.of_mem_parts`).  So every name in the statements
of a text is a word and no keyword, every number is neither negative nor beyond 64 bits, and every
string is made of plain characters and escapes (`contents_of_readScript`).
-/

namespace SqlForest

/-! ## Strings -/

/-- A text of plain characters and escapes. -/
inductive IsEscaped : List Char → Prop
  | empty : IsEscaped []
  | plain {c : Char} {cs : List Char} (h : c ∉ ['"', '\\', '\n', '\r']) (hcs : IsEscaped cs) :
    IsEscaped (c :: cs)
  | escape {c : Char} {cs : List Char} (h : c ∈ ['"', 'n', 'r', 'b', 'f', '\\'])
      (hcs : IsEscaped cs) : IsEscaped ('\\' :: c :: cs)

theorem isEscaped_of_isStringBody {body : List Char} (h : isStringBody body) : IsEscaped body := by
  fun_induction isStringBody body with
  | case1 => exact .empty
  | case2 c cs ih =>
    obtain ⟨hescape, hcs⟩ : isEscapable c ∧ isStringBody cs := by simpa using h
    exact .escape (of_decide_eq_true hescape) (ih hcs)
  | case3 c cs hpair ih =>
    obtain ⟨⟨⟨hquote, hbackslash⟩, hline⟩, hcs⟩ :
        ((c ≠ '"' ∧ c ≠ '\\') ∧ isLineEnd c = false) ∧ isStringBody cs := by simpa using h
    simp only [isLineEnd, Bool.or_eq_false_iff, decide_eq_false_iff_not] at hline
    refine .plain ?_ (ih hcs)
    simp [hquote, hbackslash, hline]

/-- There is no line end between plain characters and escapes. -/
theorem IsEscaped.lineEnd_not_mem {body : List Char} (h : IsEscaped body) :
    '\n' ∉ body ∧ '\r' ∉ body := by
  induction h with
  | empty => exact ⟨List.not_mem_nil, List.not_mem_nil⟩
  | @plain c cs hc _ ih =>
    simp only [List.mem_cons, List.not_mem_nil, or_false, not_or] at hc ⊢
    exact ⟨⟨Ne.symm hc.2.2.1, ih.1⟩, ⟨Ne.symm hc.2.2.2, ih.2⟩⟩
  | @escape c cs hc _ ih =>
    have hplain := not_isLineEnd_of_isEscapable (decide_eq_true hc)
    simp only [isLineEnd, Bool.or_eq_true, decide_eq_true_eq, not_or] at hplain
    simp only [List.mem_cons, not_or]
    exact ⟨⟨by decide, Ne.symm hplain.2, ih.1⟩, ⟨by decide, Ne.symm hplain.1, ih.2⟩⟩

/-! ## Parts -/

/-- The expressions of a statement, those inside other ones included. -/
def Statement.parts (s : Statement) : List Expr :=
  s.expressions.flatMap Expr.parts

theorem Expr.Printable.of_mem_parts {e part : Expr} (h : e.Printable) (hpart : part ∈ e.parts) :
    part.Printable := by
  induction e using Expr.induction with
  | identifier | number | string => exact List.mem_singleton.mp hpart ▸ h
  | call name arguments ih =>
    rcases List.mem_cons.mp hpart with rfl | hpart
    · exact h
    · obtain ⟨e, he, hpart⟩ := mem_partsOfAll hpart
      exact ih e he (allPrintable_iff.mp h.2 e he) hpart
  | binary op left right hleft hright =>
    rcases List.mem_cons.mp hpart with rfl | hpart
    · exact h
    · rcases List.mem_append.mp hpart with hpart | hpart
      · exact hleft h.1 hpart
      · exact hright h.2 hpart
  | unary op operand ih =>
    rcases List.mem_cons.mp hpart with rfl | hpart
    · exact h
    · exact ih h hpart
  | nullCheck operand negated ih =>
    rcases List.mem_cons.mp hpart with rfl | hpart
    · exact h
    · exact ih h hpart

theorem Statement.Printable.of_mem_parts {s : Statement} {part : Expr} (h : s.Printable)
    (hpart : part ∈ s.parts) : part.Printable := by
  obtain ⟨e, he, hpart⟩ := List.mem_flatMap.mp hpart
  exact (h.expressions e he).of_mem_parts hpart

/-- In the statements of a text no list is empty that must not be, every name is a word and no
keyword, no number is negative or beyond 64 bits, and every string is made of plain characters and
escapes. -/
theorem contents_of_readScript {source text : String} {forest : List Statement}
    (h : readScript source text = .ok forest) :
    ∀ s ∈ forest, s.Filled ∧ (∀ name ∈ s.names, IsName name) ∧
      (∀ name, .identifier name ∈ s.parts → IsName name) ∧
      (∀ name arguments, .call name arguments ∈ s.parts → IsName name) ∧
      (∀ value, .number value ∈ s.parts → 0 ≤ value ∧ value ≤ Integer.greatest) ∧
      (∀ body, .string body ∈ s.parts →
        IsEscaped body.toList ∧ '\n' ∉ body.toList ∧ '\r' ∉ body.toList) := by
  intro s hs
  have hprintable := printable_of_readScript h s hs
  refine ⟨hprintable.filled, hprintable.names, ?_, ?_, ?_, ?_⟩
  · intro name hpart
    exact hprintable.of_mem_parts hpart
  · intro name arguments hpart
    exact (hprintable.of_mem_parts hpart).1
  · intro value hpart
    exact hprintable.of_mem_parts hpart
  · intro body hpart
    have hescaped := isEscaped_of_isStringBody (hprintable.of_mem_parts hpart)
    exact ⟨hescaped, hescaped.lineEnd_not_mem⟩

/-- The minus sign of a negative number is an operator in front of it. -/
theorem contents_of_readScript_minus :
    readScript "p" "SELECT -1;" = .ok [.select ⟨[.unary .minus (.number 1)], none, none, none⟩] ∧
      ∀ value, .number value ∈
          (Statement.select ⟨[.unary .minus (.number 1)], none, none, none⟩).parts →
        0 ≤ value ∧ value ≤ Integer.greatest := by
  have h : readScript "p" "SELECT -1;" =
      .ok [.select ⟨[.unary .minus (.number 1)], none, none, none⟩] := by
    decide +kernel
  obtain ⟨-, -, -, -, hnumbers, -⟩ := contents_of_readScript h _ List.mem_cons_self
  exact ⟨h, hnumbers⟩

end SqlForest
