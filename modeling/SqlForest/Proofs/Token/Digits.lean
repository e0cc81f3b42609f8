import SqlForest.Proofs.Text.Literal
import SqlForest.Proofs.Token.Spelling

/-!
# Numbers in a text

A run of digits is scanned as a number where no token is in progress, or an operator, which it ends.
If it is not lumped together with a word it is then one token if its value fits 64 bits, and one
fault if not (`Scanner.run_digits`).
-/

namespace SqlForest

/-- What digits are at a position: a token if their value fits 64 bits, and a fault if not. -/
def numberFinding (p : Position) (digits : List Char) : Except Diagnostic Token :=
  if Integer.decimal digits ≤ 2 ^ 63 - 1 then .ok ⟨.number, String.ofList digits, p⟩
  else .error ⟨p, .lexical (.numberTooLong (String.ofList digits))⟩

theorem digitsFinding_eq_numberFinding {p : Position} {digits after : List Char}
    (hne : digits ≠ []) (hdigits : digits.all Char.isDigit)
    (hafter : after.head?.any isWordPart = false) :
    digitsFinding p digits after = numberFinding p digits := by
  have hlumped : ¬ after.head?.any isWordPart = true := by
    rw [hafter]
    decide
  rw [digitsFinding, if_neg hlumped, numberFinding]
  simp only [Integer.isSome_ofText?_digits hne hdigits]

namespace Scanner

variable {s : Scanner} {c : Char} {digits : List Char}

/-- The scanner is between tokens, or inside of an operator. -/
def AtEdge (s : Scanner) : Prop :=
  s.mode = .idle ∨ s.mode = .operator

/-- The scanner is inside of a word or of a string. -/
def InWordOrString (s : Scanner) : Prop :=
  s.mode = .word ∨ s.mode = .quoted ∨ s.mode = .escape

/-- Digits do not lead out of a word or a string. -/
theorem InWordOrString.feed (h : s.InWordOrString) (hc : c.isDigit) :
    (s.feed c).InWordOrString := by
  have hend : ¬ isLineEnd c := not_isLineEnd_of_isDigit hc
  rcases h with hmode | hmode | hmode
  · have hstep : s.step c = .consumed (s.advance c) := by
      unfold step
      rw [hmode]
      exact if_pos (isWordPart_of_isDigit hc)
    rw [feed_of_consumed hstep]
    exact Or.inl hmode
  · have hquote : c ≠ '"' := by
      rintro rfl
      exact absurd hc (by decide)
    have hbackslash : c ≠ '\\' := by
      rintro rfl
      exact absurd hc (by decide)
    have hstep : s.step c = .consumed (s.advance c) := by
      unfold step
      rw [hmode]
      show (if c = '"' then _ else _) = _
      rw [if_neg hquote, if_neg hbackslash, if_neg hend]
    rw [feed_of_consumed hstep]
    exact Or.inr (Or.inl hmode)
  · have hstep : ∃ t, s.step c = .consumed t ∧ t.mode = .quoted := by
      unfold step
      rw [hmode]
      show ∃ t, (if isLineEnd c then _ else _) = _ ∧ _
      rw [if_neg hend]
      split
      · exact ⟨_, rfl, rfl⟩
      · exact ⟨_, rfl, rfl⟩
    obtain ⟨t, hstep, ht⟩ := hstep
    rw [feed_of_consumed hstep]
    exact Or.inr (Or.inl ht)

theorem InWordOrString.feedAll (h : s.InWordOrString) (hdigits : digits.all Char.isDigit) :
    (s.feedAll digits).InWordOrString := by
  induction digits generalizing s with
  | nil => exact h
  | cons c digits ih =>
    obtain ⟨hc, hmore⟩ : c.isDigit ∧ digits.all Char.isDigit := by simpa using hdigits
    exact ih (h.feed hc) hmore

/-- Digits that are scanned as a number of their own are in no word and no string. -/
theorem atEdge_of_digits (hdigits : digits.all Char.isDigit) (hbefore : s.mode ≠ .digits)
    (hscanned : (s.feedAll digits).mode = .digits) : s.AtEdge := by
  have hnot : ¬ s.InWordOrString := by
    intro h
    have hinside := h.feedAll hdigits
    unfold InWordOrString at hinside
    rw [hscanned] at hinside
    revert hinside
    decide
  unfold InWordOrString at hnot
  unfold AtEdge
  cases hmode : s.mode <;> simp_all

/-- A digit ends an operator as the end of the text does. -/
theorem AtEdge.finish (h : s.AtEdge) (hc : c.isDigit) :
    s.finish.mode = .idle ∧ s.feed c = s.finish.feed c := by
  rcases h with hmode | hmode
  · have hfinish : s.finish = s := by
      unfold Scanner.finish
      rw [hmode]
    rw [hfinish]
    exact ⟨hmode, rfl⟩
  · have hfinish : s.finish = s.finishOperator.enter .idle := by
      unfold Scanner.finish
      rw [hmode]
    have hstep : s.step c = .handedBack (s.finishOperator.enter .idle) := by
      unfold step
      rw [hmode]
      have hoperator : ¬ isOperatorChar c = true := by
        rw [not_isOperatorChar_of_isDigit hc]
        decide
      exact if_neg hoperator
    have hfeed : s.feed c = (s.finishOperator.enter .idle).takeIdle c := by
      unfold feed
      rw [hstep]
    rw [hfinish]
    exact ⟨rfl, hfeed.trans (feed_idle rfl c).symm⟩

/-- Digits that are scanned as a number of their own, and are not followed by a character of a word,
are one token or one fault behind what is found in front of them. -/
theorem run_digits {after : List Char} (hne : digits ≠ []) (hdigits : digits.all Char.isDigit)
    (hafter : after.head?.any isWordPart = false) (hbefore : s.mode ≠ .digits)
    (hscanned : (s.feedAll digits).mode = .digits) :
    ∃ t, s.run (digits ++ after) = t.run after ∧
      s.finish.Comes t digits [numberFinding s.finish.position digits] := by
  have hedge := atEdge_of_digits hdigits hbefore hscanned
  rw [← digitsFinding_eq_numberFinding hne hdigits hafter]
  cases digits with
  | nil => exact absurd rfl hne
  | cons c digits =>
    obtain ⟨hc, hmore⟩ : c.isDigit ∧ digits.all Char.isDigit := by simpa using hdigits
    obtain ⟨hidle, hfeed⟩ := hedge.finish hc
    have hend := any_isDigit_of_any_isWordPart hafter
    obtain ⟨t, hrun, hcomes⟩ := exists_comes hidle c (digits ++ after)
    simp only [munch, if_neg (not_isBlank_of_isDigit hc), if_neg (not_isWordStart_of_isDigit hc),
      if_pos hc, takeWhile_append_of_ends hmore hend, dropWhile_append_of_ends hmore hend]
      at hrun hcomes
    refine ⟨t, ?_, hcomes⟩
    rw [List.cons_append, run_cons, hfeed, ← run_cons]
    exact hrun

end Scanner

end SqlForest
