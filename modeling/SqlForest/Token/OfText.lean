import SqlForest.Token.Scanner

/-!
# The tokens of a text

`TokenStream.ofText` scans a whole text.  A scanner never adds a token of the kind `endOfInput`
(`Scanner.unfinished_ofText`), so its tokens, closed by one of that kind, form a stream.
-/

namespace SqlForest

namespace Scanner

/-! ## The tokens that each operation adds -/

@[simp] theorem tokens_begin (s : Scanner) : s.begin.tokens = s.tokens := rfl

@[simp] theorem tokens_advance (s : Scanner) (c : Char) : (s.advance c).tokens = s.tokens := rfl

@[simp] theorem tokens_advanceLine (s : Scanner) : s.advanceLine.tokens = s.tokens := rfl

@[simp] theorem tokens_enter (s : Scanner) (mode : Mode) : (s.enter mode).tokens = s.tokens := rfl

@[simp] theorem tokens_reject (s : Scanner) (position : Position) (fault : LexicalFault) :
    (s.reject position fault).tokens = s.tokens := rfl

@[simp] theorem tokens_push (s : Scanner) (kind : TokenKind) (lexeme : List Char) :
    (s.push kind lexeme).tokens = ⟨kind, String.ofList lexeme, s.startPosition⟩ :: s.tokens := rfl

/-! ## No token marks the end of input -/

/-- No token of the scan marks the end of input. -/
def Unfinished (s : Scanner) : Prop :=
  ∀ t ∈ s.tokens, t.kind ≠ .endOfInput

theorem unfinished_start (source : String) : (start source).Unfinished := by
  simp [Unfinished, start]

theorem Unfinished.of_tokens_eq {s t : Scanner} (h : s.Unfinished) (e : t.tokens = s.tokens) :
    t.Unfinished := by
  simpa [Unfinished, e] using h

theorem Unfinished.push {s : Scanner} (h : s.Unfinished) {kind : TokenKind} (lexeme : List Char)
    (hk : kind ≠ .endOfInput) : (s.push kind lexeme).Unfinished := by
  simpa [Unfinished, hk] using h

theorem Unfinished.begin {s : Scanner} (h : s.Unfinished) : s.begin.Unfinished :=
  h.of_tokens_eq (tokens_begin s)

theorem Unfinished.advance {s : Scanner} (h : s.Unfinished) (c : Char) :
    (s.advance c).Unfinished :=
  h.of_tokens_eq (tokens_advance s c)

theorem Unfinished.advanceLine {s : Scanner} (h : s.Unfinished) : s.advanceLine.Unfinished :=
  h.of_tokens_eq (tokens_advanceLine s)

theorem Unfinished.enter {s : Scanner} (h : s.Unfinished) (mode : Mode) :
    (s.enter mode).Unfinished :=
  h.of_tokens_eq (tokens_enter s mode)

theorem Unfinished.reject {s : Scanner} (h : s.Unfinished) (position : Position)
    (fault : LexicalFault) : (s.reject position fault).Unfinished :=
  h.of_tokens_eq (tokens_reject s position fault)

theorem Unfinished.finishWord {s : Scanner} (h : s.Unfinished) : s.finishWord.Unfinished := by
  unfold Scanner.finishWord
  split
  · exact h.push _ (by decide)
  · exact h.push _ (by decide)

theorem Unfinished.finishDigits {s : Scanner} (h : s.Unfinished) : s.finishDigits.Unfinished := by
  unfold Scanner.finishDigits
  split
  · exact h.push _ (by decide)
  · exact h.reject _ _

theorem Unfinished.finishOperator {s : Scanner} (h : s.Unfinished) :
    s.finishOperator.Unfinished := by
  unfold Scanner.finishOperator
  split
  · exact h.push _ (by decide)
  · exact h.reject _ _

theorem Unfinished.finishQuoted {s : Scanner} (h : s.Unfinished) : s.finishQuoted.Unfinished :=
  h.push _ (by decide)

theorem punctuation?_ne_endOfInput {c : Char} {kind : TokenKind} (h : punctuation? c = some kind) :
    kind ≠ .endOfInput := by
  rintro rfl
  unfold punctuation? at h
  split at h <;> simp at h

theorem Unfinished.takeIdle {s : Scanner} (h : s.Unfinished) (c : Char) :
    (s.takeIdle c).Unfinished := by
  have hc : (s.begin.advance c).Unfinished := h.begin.advance c
  unfold Scanner.takeIdle
  repeat' split
  · exact h.begin.advanceLine
  · exact hc
  · exact hc.enter _
  · exact hc.enter _
  · exact hc.enter _
  · exact hc.enter _
  · rename_i hk
    exact hc.push _ (punctuation?_ne_endOfInput hk)
  · exact hc.reject _ _

theorem Unfinished.step {s : Scanner} (h : s.Unfinished) (c : Char) :
    (s.step c).next.Unfinished := by
  unfold Scanner.step
  repeat' split
  all_goals dsimp only [Step.next]
  · exact h.takeIdle c
  · exact h.advance c
  · exact h.finishWord.enter _
  · exact h.advance c
  · exact (h.reject _ _).enter _
  · exact h.finishDigits.enter _
  · exact (h.advance c).finishQuoted.enter _
  · exact (h.advance c).enter _
  · exact (h.reject _ _).enter _
  · exact h.advance c
  · exact (h.reject _ _).enter _
  · exact (h.advance c).enter _
  · exact ((h.reject _ _).advance c).enter _
  · exact h.advance c
  · exact h.finishOperator.enter _

theorem Unfinished.feed {s : Scanner} (h : s.Unfinished) (c : Char) : (s.feed c).Unfinished := by
  have hs := h.step c
  unfold Scanner.feed
  split <;> rename_i next he <;> rw [he] at hs
  · exact hs
  · exact Unfinished.takeIdle hs c

theorem Unfinished.feedAll {s : Scanner} (h : s.Unfinished) (text : List Char) :
    (s.feedAll text).Unfinished := by
  induction text generalizing s with
  | nil => exact h
  | cons c rest ih => exact ih (h.feed c)

theorem Unfinished.finish {s : Scanner} (h : s.Unfinished) : s.finish.Unfinished := by
  unfold Scanner.finish
  split
  · exact h
  · exact h.finishWord.enter _
  · exact h.finishDigits.enter _
  · exact (h.reject _ _).enter _
  · exact (h.reject _ _).enter _
  · exact h.finishOperator.enter _

end Scanner

/-- The scanner at the end of a text. -/
def Scanner.ofText (source text : String) : Scanner :=
  ((start source).feedAll text.toList).finish

theorem Scanner.unfinished_ofText (source text : String) : (ofText source text).Unfinished :=
  ((unfinished_start source).feedAll text.toList).finish

/-- The tokens of a text, or all its lexical faults in the order of the scan. -/
def TokenStream.ofText (source text : String) : Except (List Diagnostic) TokenStream :=
  let s := Scanner.ofText source text
  match s.diagnostics with
  | [] => .ok {
      tokens := s.tokens.reverse
      finish := ⟨.endOfInput, "", s.position⟩
      kind_ne_endOfInput := fun t ht =>
        Scanner.unfinished_ofText source text t (List.mem_reverse.mp ht)
      finish_kind := rfl }
  | diagnostics => .error diagnostics.reverse

end SqlForest
