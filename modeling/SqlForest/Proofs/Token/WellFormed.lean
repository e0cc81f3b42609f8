import SqlForest.Proofs.Text.Integer
import SqlForest.Proofs.Token.Lexeme

/-!
# The tokens of a text are well formed

Whatever ends a token makes sure of its lexeme: the end of a word that it is no keyword under
another case, the end of a number that it fits, a quote that the string before it has no fault.  So
all tokens of a text without faults have well-formed lexemes (`TokenStream.wellFormed_of_ofText`).
The converse, that texts with any well-formed lexemes exist, is `exists_ofText_spaced`.
-/

namespace SqlForest

/-! ## Single tokens -/

section Tokens

variable {p : Position} {t : Token}

theorem wellFormed_wordToken {word : List Char} (hstart : word.head?.any isWordStart)
    (hparts : word.tail.all isWordPart) : (wordToken p word).toLexeme.WellFormed := by
  unfold wordToken
  cases hword : Keyword.ofWord? (String.ofList word) with
  | some keyword => exact .keyword keyword
  | none =>
    refine .identifier ⟨?_, ?_, hword⟩
    · rwa [String.toList_ofList]
    · rwa [String.toList_ofList]

theorem wellFormed_digits {digits left : List Char} (hne : digits ≠ [])
    (hdigits : digits.all Char.isDigit) (h : digitsFinding p digits left = .ok t) :
    t.toLexeme.WellFormed := by
  unfold digitsFinding at h
  split at h
  · cases h
  · split at h
    · rename_i hvalue
      rw [← Except.ok.inj h]
      refine .number ?_ ?_ hvalue
      · rwa [String.toList_ofList]
      · rwa [String.toList_ofList]
    · cases h

theorem wellFormed_operator {run : List Char} (h : operatorFinding p run = .ok t) :
    t.toLexeme.WellFormed := by
  unfold operatorFinding at h
  split at h
  · rename_i hmem
    rw [← Except.ok.inj h]
    exact .operator hmem
  · cases h

theorem wellFormed_single {c : Char} (h : singleFinding p c = .ok t) :
    t.toLexeme.WellFormed := by
  unfold singleFinding at h
  cases hc : punctuation? c with
  | none =>
    rw [hc] at h
    cases h
  | some kind =>
    rw [hc] at h
    rw [← Except.ok.inj h]
    exact .punctuation hc

/-- A body without faults in front of a quote can be the body of a string.  At a quote no backslash
is left alone. -/
theorem isStringBody_quotedBody {text left : List Char}
    (hquote : text.drop (quotedBody text).length = '"' :: left)
    (hfaults : escapeFaults p (quotedBody text) = []) : isStringBody (quotedBody text) := by
  fun_induction quotedBody text generalizing p with
  | case1 => rfl
  | case2 c cs hend =>
    simp only [List.length_singleton, List.drop_succ_cons, List.drop_zero, List.cons.injEq]
      at hquote
    rw [hquote.1] at hend
    exact absurd hend (by decide)
  | case3 c cs hend ih =>
    rw [escapeFaults] at hfaults
    by_cases hescape : isEscapable c
    · rw [if_pos hescape] at hfaults
      rw [isStringBody, hescape, ih hquote hfaults]
      rfl
    · rw [if_neg hescape] at hfaults
      cases hfaults
  | case4 c cs hpair hend => rfl
  | case5 c cs hpair hend ih =>
    have hbackslash : c ≠ '\\' := by
      intro heq
      cases cs with
      | nil => cases hquote
      | cons d cs => exact hpair d cs heq rfl
    obtain ⟨hplain, hline⟩ := not_or.mp hend
    rw [Scanner.escapeFaults_plain p hbackslash] at hfaults
    rw [isStringBody, ih hquote hfaults]
    · simp [hplain, hbackslash, hline]
    · intro _ _ heq
      exact absurd heq hbackslash

theorem wellFormed_stringEnd {body rest : List Char} {tokens : List Token}
    (hbody : ∀ left, rest = '"' :: left → isStringBody body)
    (h : (stringEnd p body rest).found = tokens.map .ok) :
    ∀ t ∈ tokens, t.toLexeme.WellFormed := by
  unfold stringEnd at h
  split at h
  · obtain ⟨t, -, ht⟩ := List.map_eq_singleton_iff.mp h.symm
    cases ht
  · split at h
    · rename_i c left hquote
      obtain ⟨t, rfl, ht⟩ := List.map_eq_singleton_iff.mp h.symm
      have hwell : isStringBody body := hbody left (by rw [hquote])
      intro u hu
      rw [List.mem_singleton.mp hu, Except.ok.inj ht]
      refine .string ?_
      rwa [String.toList_ofList]
    · obtain ⟨t, -, ht⟩ := List.map_eq_singleton_iff.mp h.symm
      cases ht

/-- Errors in front of tokens leave no choice but that there are none. -/
theorem eq_nil_of_errors {faults : List Diagnostic} {found : List (Except Diagnostic Token)}
    {tokens : List Token} (h : faults.map Except.error ++ found = tokens.map .ok) :
    faults = [] ∧ found = tokens.map .ok := by
  cases faults with
  | nil => exact ⟨rfl, h⟩
  | cons d faults =>
    cases tokens with
    | nil => cases h
    | cons t tokens => cases h

theorem wellFormed_munchString {text : List Char} {tokens : List Token}
    (h : (munchString p text).found = tokens.map .ok) :
    ∀ t ∈ tokens, t.toLexeme.WellFormed := by
  obtain ⟨hfaults, hend⟩ := eq_nil_of_errors h
  refine wellFormed_stringEnd ?_ hend
  intro left hquote
  exact isStringBody_quotedBody hquote hfaults

/-! ## Whole texts -/

theorem wellFormed_munch {c : Char} {text : List Char} {tokens : List Token}
    (h : (munch p c text).found = tokens.map .ok) : ∀ t ∈ tokens, t.toLexeme.WellFormed := by
  have single : ∀ {found : Except Diagnostic Token} {tokens : List Token},
      [found] = tokens.map .ok → (∀ t, found = .ok t → t.toLexeme.WellFormed) →
      ∀ t ∈ tokens, t.toLexeme.WellFormed := by
    intro found tokens hfound hwell t ht
    obtain ⟨u, rfl, hu⟩ := List.map_eq_singleton_iff.mp hfound.symm
    rw [List.mem_singleton.mp ht]
    exact hwell u hu.symm
  revert h
  refine munch_cases (P := fun m => m.found = tokens.map .ok →
    ∀ t ∈ tokens, t.toLexeme.WellFormed) ?_ ?_ ?_ ?_ ?_ ?_
  · intro _ h t ht
    rw [List.map_eq_nil_iff.mp h.symm] at ht
    cases ht
  · intro _ hc h
    refine single h ?_
    intro t ht
    rw [← Except.ok.inj ht]
    exact wellFormed_wordToken hc List.all_takeWhile
  · intro _ hc h
    refine single h fun t ht => wellFormed_digits (List.cons_ne_nil _ _) ?_ ht
    rw [List.all_cons, hc, List.all_takeWhile]
    rfl
  · intro _ h
    exact wellFormed_munchString h
  · intro _ _ h
    exact single h fun t ht => wellFormed_operator ht
  · intro _ _ h
    exact single h fun t ht => wellFormed_single ht

theorem wellFormed_findings {text : List Char} {tokens : List Token}
    (h : findings p text = tokens.map .ok) : ∀ t ∈ tokens, t.toLexeme.WellFormed := by
  fun_induction findings p text generalizing tokens with
  | case1 p =>
    rw [List.map_eq_nil_iff.mp h.symm]
    intro t ht
    cases ht
  | case2 p c text m =>
    rename_i ih
    obtain ⟨us, vs, rfl, hfound, hlater⟩ := List.append_eq_map_iff.mp h
    intro t ht
    rcases List.mem_append.mp ht with ht | ht
    · exact wellFormed_munch hfound.symm t ht
    · exact ih hlater.symm t ht

end Tokens

namespace TokenStream

theorem wellFormed_of_ofText {source text : String} {s : TokenStream}
    (h : ofText source text = .ok s) : ∀ t ∈ s.tokens, t.toLexeme.WellFormed :=
  wellFormed_findings (ofText_eq_ok.mp h).1

end TokenStream

/-! ## Faults -/

section Faults

variable {p : Position} {d : Diagnostic}

/-- The diagnostic is of a lexical fault. -/
def Diagnostic.IsLexical (d : Diagnostic) : Prop :=
  ∃ fault, d.fault = .lexical fault

theorem isLexical_digits {digits left : List Char} (h : digitsFinding p digits left = .error d) :
    d.IsLexical := by
  unfold digitsFinding at h
  split at h
  · cases h
    exact ⟨_, rfl⟩
  · split at h
    · cases h
    · cases h
      exact ⟨_, rfl⟩

theorem isLexical_operator {run : List Char} (h : operatorFinding p run = .error d) :
    d.IsLexical := by
  unfold operatorFinding at h
  split at h
  · cases h
  · cases h
    exact ⟨_, rfl⟩

theorem isLexical_single {c : Char} (h : singleFinding p c = .error d) : d.IsLexical := by
  unfold singleFinding at h
  split at h
  · cases h
  · cases h
    exact ⟨_, rfl⟩

theorem isLexical_escapeFaults {body : List Char} (h : d ∈ escapeFaults p body) :
    d.IsLexical := by
  fun_induction escapeFaults p body with
  | case1 => cases h
  | case2 p c cs later hescape ih => exact ih h
  | case3 p c cs later hescape ih =>
    rcases List.mem_cons.mp h with rfl | h
    · exact ⟨_, rfl⟩
    · exact ih h
  | case4 p c cs hpair ih => exact ih h

theorem isLexical_stringEnd {body rest : List Char}
    (h : .error d ∈ (stringEnd p body rest).found) : d.IsLexical := by
  unfold stringEnd at h
  split at h
  · cases List.mem_singleton.mp h
    exact ⟨_, rfl⟩
  · split at h
    · cases List.mem_singleton.mp h
    · cases List.mem_singleton.mp h
      exact ⟨_, rfl⟩

theorem isLexical_munch {c : Char} {text : List Char} (h : .error d ∈ (munch p c text).found) :
    d.IsLexical := by
  revert h
  refine munch_cases (P := fun m => .error d ∈ m.found → d.IsLexical) ?_ ?_ ?_ ?_ ?_ ?_
  · intro _ h
    cases h
  · intro _ _ h
    cases List.mem_singleton.mp h
  · intro _ _ h
    exact isLexical_digits (List.mem_singleton.mp h).symm
  · intro _ h
    rcases List.mem_append.mp h with h | h
    · obtain ⟨_, hmem, hd⟩ := List.mem_map.mp h
      cases hd
      exact isLexical_escapeFaults hmem
    · exact isLexical_stringEnd h
  · intro _ _ h
    exact isLexical_operator (List.mem_singleton.mp h).symm
  · intro _ _ h
    exact isLexical_single (List.mem_singleton.mp h).symm

theorem isLexical_findings {text : List Char} (h : .error d ∈ findings p text) :
    d.IsLexical := by
  fun_induction findings p text with
  | case1 => cases h
  | case2 p c text m =>
    rename_i ih
    rcases List.mem_append.mp h with h | h
    · exact isLexical_munch h
    · exact ih h

theorem TokenStream.isLexical_of_ofText {source text : String} {ds : List Diagnostic}
    (h : ofText source text = .error ds) (hd : d ∈ ds) : d.IsLexical := by
  rw [← (ofText_eq_error.mp h).2] at hd
  obtain ⟨found, hfound, herror⟩ := List.mem_filterMap.mp hd
  cases found with
  | ok t => cases herror
  | error e =>
    cases herror
    exact isLexical_findings hfound

end Faults

/-! ## What is known of each kind -/

theorem punctuation?_kind {c : Char} {kind : TokenKind} (h : punctuation? c = some kind) :
    kind ∈ [.leftParen, .rightParen, .comma, .period, .semicolon] := by
  unfold punctuation? at h
  split at h
  all_goals
    cases h
    try decide

namespace Lexeme.WellFormed

variable {text : String}

theorem exists_keyword (h : WellFormed ⟨.keyword, text⟩) :
    ∃ word : Keyword, text = word.spelling := by
  cases h with
  | keyword word => exact ⟨word, rfl⟩
  | punctuation hc => exact absurd (punctuation?_kind hc) (by decide)

theorem isName (h : WellFormed ⟨.identifier, text⟩) : IsName text := by
  cases h with
  | identifier hname => exact hname
  | punctuation hc => exact absurd (punctuation?_kind hc) (by decide)

theorem isStringBody (h : WellFormed ⟨.string, text⟩) : isStringBody text.toList := by
  cases h with
  | string hbody => exact hbody
  | punctuation hc => exact absurd (punctuation?_kind hc) (by decide)

/-- The value of a number fits 64 bits, and the grammar reads it. -/
theorem value (h : WellFormed ⟨.number, text⟩) :
    text.toList ≠ [] ∧ text.toList.all Char.isDigit ∧
      Integer.ofText? text = some ↑(Integer.valueOfDigits text.toList) ∧
      (Integer.valueOfDigits text.toList : Int) ≤ Integer.greatest := by
  cases h with
  | number hne hdigits hvalue =>
    refine ⟨hne, hdigits, ?_⟩
    have hread : Integer.ofSigned? text.toList = some ↑(Integer.valueOfDigits text.toList) := by
      rw [Integer.ofSigned?_of_isDigit hdigits, Integer.ofDigits?, if_pos ⟨hne, hdigits⟩]
      rfl
    unfold Integer.ofText? at hvalue ⊢
    rw [hread, Option.isSome_filter] at hvalue
    have hfits : Integer.Fits (Integer.valueOfDigits text.toList) := by simpa using hvalue
    rw [hread]
    refine ⟨?_, hfits.2⟩
    simp [hfits]
  | punctuation hc => exact absurd (punctuation?_kind hc) (by decide)

end Lexeme.WellFormed

end SqlForest
