import SqlForest.Proofs.Token.Offset

/-!
# Spelled lexemes

A lexeme is what a token is, wherever the token stands.  A well-formed one is found in a text that
begins with its spelling, if what follows does not go on with it (`findings_spelling`).  So a text
of spellings with a blank between any two of them is cut into tokens with just these lexemes
(`exists_ofText_spaced`).
-/

namespace SqlForest

/-! ## Lexemes -/

/-- What a token is, wherever it stands: its kind and its text. -/
structure Lexeme where
  kind : TokenKind
  text : String
deriving DecidableEq, Repr

/-- The lexeme of a token. -/
def Token.toLexeme (t : Token) : Lexeme :=
  ⟨t.kind, t.lexeme⟩

/-- The word can be a name: it is made like a word and is no keyword. -/
structure IsName (name : String) : Prop where
  start : name.toList.head?.any isWordStart
  parts : name.toList.tail.all isWordPart
  free : Keyword.ofWord? name = none

/-- Whether a string can hold the characters between its quotes. -/
def isStringBody : List Char → Bool
  | [] => true
  | '\\' :: c :: cs => isEscapable c && isStringBody cs
  | c :: cs => c ≠ '"' && c ≠ '\\' && !isLineEnd c && isStringBody cs

namespace Lexeme

/-- The token with the lexeme at a position. -/
def token (l : Lexeme) (p : Position) : Token :=
  ⟨l.kind, l.text, p⟩

/-- The characters that the lexeme is written with: a string stands between quotes. -/
def spelling (l : Lexeme) : List Char :=
  if l.kind = .string then '"' :: (l.text.toList ++ ['"']) else l.text.toList

/-- Tokens of texts can have the lexeme. -/
inductive WellFormed : Lexeme → Prop
  | keyword (word : Keyword) : WellFormed ⟨.keyword, word.spelling⟩
  | identifier {name : String} (h : IsName name) : WellFormed ⟨.identifier, name⟩
  | number {digits : String} (hne : digits.toList ≠ []) (hdigits : digits.toList.all Char.isDigit)
      (hvalue : (Integer.ofText? digits).isSome) : WellFormed ⟨.number, digits⟩
  | string {body : String} (h : isStringBody body.toList) : WellFormed ⟨.string, body⟩
  | operator {symbol : String} (h : symbol ∈ operators) : WellFormed ⟨.operator, symbol⟩
  | punctuation {c : Char} {kind : TokenKind} (h : punctuation? c = some kind) :
    WellFormed ⟨kind, String.ofList [c]⟩

theorem WellFormed.kind_ne_endOfInput {l : Lexeme} (h : l.WellFormed) : l.kind ≠ .endOfInput := by
  cases h with
  | punctuation hc => exact Scanner.punctuation?_ne_endOfInput hc
  | _ => exact nofun

end Lexeme

/-- Whether a token of the kind goes on with a character behind it. -/
def TokenKind.goesOn : TokenKind → Char → Bool
  | keyword | identifier | number => isWordPart
  | operator => isOperatorChar
  | _ => fun _ => false

/-! ## Classes of characters -/

section Characters

variable {c : Char}

/-- What holds of every code point of some ranges holds of each of those in them. -/
theorem of_inRanges {n : Nat} {ranges : List (Nat × Nat)} {P : Nat → Bool}
    (hall : ranges.all fun r => (List.range' r.1 (r.2 + 1 - r.1)).all P)
    (h : Text.inRanges n ranges) : P n := by
  induction ranges with
  | nil => simp [Text.inRanges] at h
  | cons r ranges ih =>
    obtain ⟨low, high⟩ := r
    simp only [List.all_cons, Bool.and_eq_true] at hall
    simp only [Text.inRanges, Bool.and_eq_true, Bool.or_eq_true, decide_eq_true_eq] at h
    obtain ⟨hlow, hhigh | hlater⟩ := h
    · refine List.all_eq_true.mp hall.1 n (List.mem_range'_1.mpr ⟨hlow, ?_⟩)
      omega
    · exact ih hall.2 hlater

theorem not_isWordStart_of_inRanges {ranges : List (Nat × Nat)}
    (hall : ranges.all fun r => (List.range' r.1 (r.2 + 1 - r.1)).all fun n =>
      !Text.inRanges n Text.alphabeticRanges && n ≠ '_'.toNat && n ≠ '$'.toNat)
    (h : Text.inRanges c.toNat ranges) : ¬ isWordStart c := by
  have hclass := of_inRanges hall h
  simp only [Bool.and_eq_true, Bool.not_eq_true', decide_eq_true_eq] at hclass
  obtain ⟨⟨hletter, hunderscore⟩, hdollar⟩ := hclass
  intro hstart
  simp only [isWordStart, Text.isAlphabetic, Bool.or_eq_true, decide_eq_true_eq] at hstart
  rcases hstart with (hstart | rfl) | rfl
  · rw [hletter] at hstart
    exact absurd hstart (by decide)
  · exact hunderscore rfl
  · exact hdollar rfl

theorem not_isWordStart_of_isBlank (h : Text.isBlank c) : ¬ isWordStart c :=
  not_isWordStart_of_inRanges (by decide +kernel) h

theorem inRanges_of_isDigit (h : c.isDigit) : Text.inRanges c.toNat [(0x30, 0x39)] := by
  simp only [Char.isDigit, Bool.and_eq_true, decide_eq_true_eq] at h
  exact Text.inRanges_head h.1 h.2

theorem not_isWordStart_of_isDigit (h : c.isDigit) : ¬ isWordStart c :=
  not_isWordStart_of_inRanges (by decide) (inRanges_of_isDigit h)

theorem not_isBlank_of_isDigit (h : c.isDigit) : ¬ Text.isBlank c := by
  have hall : ([(0x30, 0x39)] : List (Nat × Nat)).all fun r =>
      (List.range' r.1 (r.2 + 1 - r.1)).all fun n => !Text.inRanges n Text.blankRanges := by decide
  simpa [Text.isBlank] using of_inRanges hall (inRanges_of_isDigit h)

theorem isWordPart_of_isDigit (h : c.isDigit) : isWordPart c := by
  simp [isWordPart, Text.isNumeric_of_isDigit h]

theorem isWordPart_of_isWordStart (h : isWordStart c) : isWordPart c := by
  simp only [isWordStart, isWordPart, Bool.or_eq_true] at h ⊢
  rcases h with (hletter | hunderscore) | hdollar
  · exact Or.inl (Or.inl (Or.inl hletter))
  · exact Or.inl (Or.inr hunderscore)
  · exact Or.inr hdollar

theorem isWordPart_of_mem {word : List Char} (hstart : word.head?.any isWordStart)
    (hparts : word.tail.all isWordPart) (hc : c ∈ word) : isWordPart c := by
  cases word with
  | nil => cases hc
  | cons d rest =>
    rcases List.mem_cons.mp hc with rfl | hc
    · exact isWordPart_of_isWordStart hstart
    · exact List.all_eq_true.mp hparts c hc

/-- Every character of a name is part of a word. -/
theorem IsName.isWordPart_of_mem {name : String} (h : IsName name) (hc : c ∈ name.toList) :
    isWordPart c :=
  SqlForest.isWordPart_of_mem h.start h.parts hc

/-- Whether a character is not blank and starts neither a word nor a number. -/
def isSign (c : Char) : Bool :=
  !Text.isBlank c && !isWordStart c && !c.isDigit

theorem isSign_iff : isSign c ↔ ¬ Text.isBlank c ∧ ¬ isWordStart c ∧ ¬ c.isDigit := by
  simp [isSign, and_assoc]

theorem isSign_of_isOperatorChar (h : isOperatorChar c) : isSign c ∧ c ≠ '"' := by
  have hsign := of_isOperatorChar (P := fun d => isSign d && d ≠ '"') (by decide) h
  simpa using hsign

theorem isSign_of_punctuation? {kind : TokenKind} (h : punctuation? c = some kind) :
    isSign c ∧ c ≠ '"' ∧ ¬ isOperatorChar c := by
  have hmem : c ∈ ['(', ')', ',', '.', ';'] := by
    unfold punctuation? at h
    split at h <;> simp_all
  have hall : ['(', ')', ',', '.', ';'].all fun d =>
      isSign d && (d ≠ '"' && !isOperatorChar d) := by
    decide
  simpa using List.all_eq_true.mp hall c hmem

theorem not_isLineEnd_of_not_isBlank (h : ¬ Text.isBlank c) : ¬ isLineEnd c :=
  fun hend => h (isBlank_of_isLineEnd hend)

theorem not_isLineEnd_of_isDigit (h : c.isDigit) : ¬ isLineEnd c :=
  not_isLineEnd_of_not_isBlank (not_isBlank_of_isDigit h)

theorem not_isLineEnd_of_isOperatorChar (h : isOperatorChar c) : ¬ isLineEnd c :=
  not_isLineEnd_of_not_isBlank (isSign_iff.mp (isSign_of_isOperatorChar h).1).1

theorem not_isLineEnd_of_isEscapable (h : isEscapable c) : ¬ isLineEnd c := by
  have hmem : c ∈ ['"', 'n', 'r', 'b', 'f', '\\'] := by simpa [isEscapable] using h
  have hall : ['"', 'n', 'r', 'b', 'f', '\\'].all fun d => !isLineEnd d := by decide
  simpa using List.all_eq_true.mp hall c hmem

end Characters

/-! ## Runs -/

section Runs

variable {goesOn : Char → Bool} {run rest : List Char}

theorem takeWhile_append_of_ends (hrun : run.all goesOn) (hrest : rest.head?.any goesOn = false) :
    (run ++ rest).takeWhile goesOn = run := by
  have hnone : rest.takeWhile goesOn = [] := by
    cases rest with
    | nil => rfl
    | cons d rest => exact List.takeWhile_cons_of_neg (by simpa using hrest)
  rw [List.takeWhile_append_of_pos (List.all_eq_true.mp hrun), hnone, List.append_nil]

theorem dropWhile_append_of_ends (hrun : run.all goesOn) (hrest : rest.head?.any goesOn = false) :
    (run ++ rest).dropWhile goesOn = rest := by
  have hall : rest.dropWhile goesOn = rest := by
    cases rest with
    | nil => rfl
    | cons d rest => exact List.dropWhile_cons_of_neg (by simpa using hrest)
  rw [List.dropWhile_append_of_pos (List.all_eq_true.mp hrun), hall]

end Runs

/-! ## Findings of spellings -/

section Findings

variable {p : Position} {rest : List Char}

/-- A blank is no finding. -/
theorem findings_blank {c : Char} (h : Text.isBlank c) :
    findings p (c :: rest) = findings (p.after c) rest := by
  have hmunch : munch p c rest = ⟨[], [c], rest⟩ := by
    rw [munch, if_pos h]
  rw [findings_cons, hmunch]
  rfl

theorem findings_of_munch {c : Char} {text taken left : List Char} {t : Token}
    (h : munch p c text = ⟨[.ok t], taken, left⟩) :
    findings p (c :: text) = .ok t :: findings (p.afterAll taken) left := by
  rw [findings_cons, h]
  rfl

theorem findings_word {word : List Char} (hstart : word.head?.any isWordStart)
    (hparts : word.tail.all isWordPart) (hrest : rest.head?.any isWordPart = false) :
    findings p (word ++ rest) = .ok (wordToken p word) :: findings (p.afterAll word) rest := by
  cases word with
  | nil => exact absurd hstart (by decide)
  | cons c parts =>
    have hc : isWordStart c := hstart
    have hall : parts.all isWordPart := hparts
    have hblank : ¬ Text.isBlank c := fun h => not_isWordStart_of_isBlank h hc
    rw [List.cons_append]
    refine findings_of_munch ?_
    rw [munch, if_neg hblank, if_pos hc, takeWhile_append_of_ends hall hrest,
      dropWhile_append_of_ends hall hrest]

/-- What does not go on a word does not go on a number. -/
theorem any_isDigit_of_any_isWordPart (h : rest.head?.any isWordPart = false) :
    rest.head?.any Char.isDigit = false := by
  cases rest with
  | nil => rfl
  | cons d rest =>
    rw [List.head?_cons, Option.any_some, Bool.eq_false_iff] at h ⊢
    intro hd
    exact h (isWordPart_of_isDigit hd)

theorem findings_digits {digits : List Char} (hne : digits ≠ [])
    (hdigits : digits.all Char.isDigit)
    (hvalue : (Integer.ofText? (String.ofList digits)).isSome)
    (hrest : rest.head?.any isWordPart = false) :
    findings p (digits ++ rest) =
      .ok ⟨.number, String.ofList digits, p⟩ :: findings (p.afterAll digits) rest := by
  cases digits with
  | nil => exact absurd rfl hne
  | cons c digits =>
    obtain ⟨hc, hmore⟩ : c.isDigit ∧ digits.all Char.isDigit := by simpa using hdigits
    have hend := any_isDigit_of_any_isWordPart hrest
    have hlumped : ¬ rest.head?.any isWordPart = true := by
      rw [hrest]
      decide
    rw [List.cons_append]
    refine findings_of_munch ?_
    rw [munch, if_neg (not_isBlank_of_isDigit hc), if_neg (not_isWordStart_of_isDigit hc),
      if_pos hc, takeWhile_append_of_ends hmore hend, dropWhile_append_of_ends hmore hend]
    dsimp only
    rw [digitsFinding, if_neg hlumped, if_pos hvalue]

theorem findings_operator {symbol : List Char} (h : String.ofList symbol ∈ operators)
    (hrest : rest.head?.any isOperatorChar = false) :
    findings p (symbol ++ rest) =
      .ok ⟨.operator, String.ofList symbol, p⟩ :: findings (p.afterAll symbol) rest := by
  have hne : ∀ symbol ∈ operators, symbol.toList ≠ [] := by decide
  have hchars : ∀ c ∈ symbol, isOperatorChar c := by
    intro c hc
    exact isOperatorChar_of_mem_operators h (by rwa [String.toList_ofList])
  cases symbol with
  | nil => exact absurd String.toList_ofList (hne _ h)
  | cons c run =>
    have hc : isOperatorChar c := hchars c List.mem_cons_self
    have hrun : run.all isOperatorChar :=
      List.all_eq_true.mpr fun d hd => hchars d (List.mem_cons_of_mem c hd)
    obtain ⟨hsign, hquote⟩ := isSign_of_isOperatorChar hc
    obtain ⟨hblank, hword, hdigit⟩ := isSign_iff.mp hsign
    rw [List.cons_append]
    refine findings_of_munch ?_
    rw [munch, if_neg hblank, if_neg hword, if_neg hdigit, if_neg hquote, if_pos hc,
      takeWhile_append_of_ends hrun hrest, dropWhile_append_of_ends hrun hrest]
    dsimp only
    rw [operatorFinding, if_pos h]

theorem findings_punctuation {c : Char} {kind : TokenKind} (h : punctuation? c = some kind) :
    findings p (c :: rest) =
      .ok ⟨kind, String.ofList [c], p⟩ :: findings (p.after c) rest := by
  obtain ⟨hsign, hquote, hoperator⟩ := isSign_of_punctuation? h
  obtain ⟨hblank, hword, hdigit⟩ := isSign_iff.mp hsign
  have hmunch : munch p c rest = ⟨[.ok ⟨kind, String.ofList [c], p⟩], [c], rest⟩ := by
    rw [munch, if_neg hblank, if_neg hword, if_neg hdigit, if_neg hquote, if_neg hoperator,
      singleFinding, h]
  exact findings_of_munch hmunch

theorem quotedBody_of_isStringBody {body : List Char} (h : isStringBody body) (rest : List Char) :
    quotedBody (body ++ '"' :: rest) = body := by
  fun_induction isStringBody body with
  | case1 =>
    rw [List.nil_append, quotedBody, if_pos (Or.inl rfl)]
    intro _ _ hc
    exact absurd hc (by decide)
  | case2 c cs ih =>
    obtain ⟨hescape, hcs⟩ : isEscapable c ∧ isStringBody cs := by simpa using h
    rw [List.cons_append, List.cons_append, quotedBody,
      if_neg (not_isLineEnd_of_isEscapable hescape), ih hcs]
  | case3 c cs hpair ih =>
    obtain ⟨⟨⟨hquote, hbackslash⟩, hend⟩, hcs⟩ :
        ((c ≠ '"' ∧ c ≠ '\\') ∧ isLineEnd c = false) ∧ isStringBody cs := by simpa using h
    have hplain : ¬ (c = '"' ∨ isLineEnd c) := by simp [hquote, hend]
    rw [List.cons_append, quotedBody, if_neg hplain, ih hcs]
    intro _ _ hc
    exact absurd hc hbackslash

theorem escapeFaults_of_isStringBody (p : Position) {body : List Char} (h : isStringBody body) :
    escapeFaults p body = [] := by
  fun_induction isStringBody body generalizing p with
  | case1 => rfl
  | case2 c cs ih =>
    obtain ⟨hescape, hcs⟩ : isEscapable c ∧ isStringBody cs := by simpa using h
    rw [escapeFaults, if_pos hescape]
    exact ih _ hcs
  | case3 c cs hpair ih =>
    obtain ⟨⟨⟨-, hbackslash⟩, -⟩, hcs⟩ :
        ((c ≠ '"' ∧ c ≠ '\\') ∧ isLineEnd c = false) ∧ isStringBody cs := by simpa using h
    rw [Scanner.escapeFaults_plain p hbackslash]
    exact ih _ hcs

theorem findings_string {body : List Char} (h : isStringBody body) (rest : List Char) :
    findings p ('"' :: (body ++ '"' :: rest)) =
      .ok ⟨.string, String.ofList body, p⟩ ::
        findings (p.afterAll ('"' :: (body ++ ['"']))) rest := by
  obtain ⟨hblank, hword, hdigit⟩ := isSign_iff.mp (show isSign '"' by decide)
  have hstring : munchString p (body ++ '"' :: rest) =
      ⟨[.ok ⟨.string, String.ofList body, p⟩], '"' :: (body ++ ['"']), rest⟩ := by
    rw [munchString, quotedBody_of_isStringBody h, List.drop_left, escapeFaults_of_isStringBody _ h]
    rfl
  refine findings_of_munch ?_
  rw [munch, if_neg hblank, if_neg hword, if_neg hdigit, if_pos rfl, hstring]

theorem isWord_spelling (word : Keyword) :
    word.spelling.toList.head?.any isWordStart ∧ word.spelling.toList.tail.all isWordPart := by
  cases word <;> decide

/-- In front of a text that does not go on with it, a spelling is the lexeme that it spells. -/
theorem findings_spelling {l : Lexeme} (h : l.WellFormed)
    (hrest : rest.head?.any l.kind.goesOn = false) :
    findings p (l.spelling ++ rest) =
      .ok (l.token p) :: findings (p.afterAll l.spelling) rest := by
  cases h with
  | keyword word =>
    obtain ⟨hstart, hparts⟩ := isWord_spelling word
    have hfound := findings_word (p := p) hstart hparts hrest
    rwa [wordToken, String.ofList_toList, Keyword.ofWord?_spelling] at hfound
  | identifier hname =>
    have hfound := findings_word (p := p) hname.start hname.parts hrest
    rwa [wordToken, String.ofList_toList, hname.free] at hfound
  | @number digits hne hdigits hvalue =>
    rw [← String.ofList_toList (s := digits)] at hvalue
    have hfound := findings_digits (p := p) hne hdigits hvalue hrest
    rwa [String.ofList_toList] at hfound
  | @string body hbody =>
    have hspelling : Lexeme.spelling ⟨.string, body⟩ ++ rest =
        '"' :: (body.toList ++ '"' :: rest) := by
      show '"' :: (body.toList ++ ['"']) ++ rest = _
      rw [List.cons_append, List.append_assoc, List.singleton_append]
    have hfound := findings_string (p := p) hbody rest
    rw [String.ofList_toList] at hfound
    rw [hspelling]
    exact hfound
  | @operator symbol hmem =>
    rw [← String.ofList_toList (s := symbol)] at hmem
    have hfound := findings_operator (p := p) hmem hrest
    rwa [String.ofList_toList] at hfound
  | @punctuation c kind hc =>
    have hspelling : Lexeme.spelling ⟨kind, String.ofList [c]⟩ = [c] := by
      rw [Lexeme.spelling, if_neg (kind_of_punctuation? hc).2]
      exact String.toList_ofList
    rw [hspelling, List.singleton_append, findings_punctuation hc]
    rfl

end Findings

/-! ## Texts of spellings -/

/-- The spellings of lexemes with one blank between any two of them. -/
def spaced : List Lexeme → List Char
  | [] => []
  | [l] => l.spelling
  | l :: ls => l.spelling ++ ' ' :: spaced ls

/-- No token goes on with a blank. -/
theorem any_goesOn_blank (kind : TokenKind) (rest : List Char) :
    (' ' :: rest).head?.any kind.goesOn = false := by
  show kind.goesOn ' ' = false
  cases kind <;> decide

/-- The findings of spellings are tokens with the spelled lexemes. -/
theorem exists_findings_spaced {ls : List Lexeme} (h : ∀ l ∈ ls, l.WellFormed) (p : Position) :
    ∃ tokens : List Token, findings p (spaced ls) = tokens.map .ok ∧
      tokens.map Token.toLexeme = ls := by
  fun_induction spaced ls generalizing p with
  | case1 => exact ⟨[], findings_nil p, rfl⟩
  | case2 l =>
    have hl : l.WellFormed := h l List.mem_cons_self
    refine ⟨[l.token p], ?_, rfl⟩
    rw [← List.append_nil l.spelling, findings_spelling hl rfl, findings_nil]
    rfl
  | case3 l ls _ ih =>
    have hl : l.WellFormed := h l List.mem_cons_self
    have hls : ∀ l' ∈ ls, l'.WellFormed := fun l' hl' => h l' (List.mem_cons_of_mem l hl')
    obtain ⟨tokens, hfindings, hlexemes⟩ := ih hls ((p.afterAll l.spelling).after ' ')
    refine ⟨l.token p :: tokens, ?_, ?_⟩
    · rw [findings_spelling hl (any_goesOn_blank l.kind _), findings_blank (by decide), hfindings]
      rfl
    · rw [List.map_cons, hlexemes]
      rfl

/-- A text of spellings is cut into tokens with the spelled lexemes. -/
theorem exists_ofText_spaced {ls : List Lexeme} (h : ∀ l ∈ ls, l.WellFormed) (source : String) :
    ∃ s : TokenStream, TokenStream.ofText source (String.ofList (spaced ls)) = .ok s ∧
      s.tokens.map Token.toLexeme = ls := by
  obtain ⟨tokens, hfindings, hlexemes⟩ := exists_findings_spaced h (Position.origin source)
  have hkinds : ∀ t ∈ tokens, t.kind ≠ .endOfInput := by
    intro t ht
    have hmem : t.toLexeme ∈ ls := by
      rw [← hlexemes]
      exact List.mem_map_of_mem ht
    exact (h t.toLexeme hmem).kind_ne_endOfInput
  let s : TokenStream := ⟨tokens, finishOf source (String.ofList (spaced ls)), hkinds, rfl⟩
  refine ⟨s, TokenStream.ofText_eq_ok.mpr ⟨?_, rfl⟩, hlexemes⟩
  rw [findingsOf, String.toList_ofList]
  exact hfindings

end SqlForest
