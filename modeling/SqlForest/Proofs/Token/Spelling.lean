import SqlForest.Proofs.Token.Lexeme

/-!
# Texts of spellings

A text in which well-formed lexemes are written one behind the other is cut into tokens with just
these lexemes (`TokenStream.ofText_written`).  Blanks may stand in front of each of them and behind
the last, as many and of whatever kind.  They must stand only between lexemes that would run into
one another: between two words, where a number counts as a word, and between two operators.
-/

namespace SqlForest

/-! ## Lexemes that run into one another -/

/-- Whether tokens of the kind are words, or numbers, which a word may not follow. -/
def TokenKind.isWord : TokenKind → Bool
  | keyword | identifier | number => true
  | _ => false

/-- Whether tokens of the one kind with tokens of the other right behind them are taken for one. -/
def TokenKind.runsInto (kind behind : TokenKind) : Bool :=
  kind.isWord && behind.isWord || kind = .operator && behind = .operator

/-- Lexemes in writing, each of them with the characters that stand behind it. -/
def written (pieces : List (Lexeme × List Char)) : List Char :=
  pieces.flatMap fun piece => piece.1.spelling ++ piece.2

/-- Each lexeme is well formed, there are only blanks behind it, and there are some if it would run
into the next one. -/
structure Parted (pieces : List (Lexeme × List Char)) : Prop where
  wellFormed : ∀ piece ∈ pieces, piece.1.WellFormed
  blank : ∀ piece ∈ pieces, piece.2.all Text.isBlank
  apart : pieces.IsChain fun piece next => piece.1.kind.runsInto next.1.kind → piece.2 ≠ []

/-! ## What a token does not go on with -/

section Characters

variable {c : Char}

theorem not_isWordPart_of_isBlank (h : Text.isBlank c) : ¬ isWordPart c := by
  have hall : Text.blankRanges.all fun r => (List.range' r.1 (r.2 + 1 - r.1)).all fun n =>
      !Text.inRanges n Text.numericRanges := by decide +kernel
  have hnumeric : Text.isNumeric c = false := by
    simpa [Text.isNumeric] using of_inRanges hall h
  have hstart := not_isWordStart_of_isBlank h
  simpa [isWordPart, isWordStart, hnumeric] using hstart

theorem not_goesOn_of_isBlank (kind : TokenKind) (h : Text.isBlank c) : kind.goesOn c = false := by
  have hword : isWordPart c = false := by simpa using not_isWordPart_of_isBlank h
  have hoperator : isOperatorChar c = false := by
    rw [Bool.eq_false_iff]
    intro hc
    exact (isSign_iff.mp (isSign_of_isOperatorChar hc).1).1 h
  cases kind with
  | keyword | identifier | number => exact hword
  | operator => exact hoperator
  | _ => rfl

theorem not_isOperatorChar_of_isWordStart (h : isWordStart c) : isOperatorChar c = false := by
  rw [Bool.eq_false_iff]
  intro hc
  exact (isSign_iff.mp (isSign_of_isOperatorChar hc).1).2.1 h

theorem not_isOperatorChar_of_isDigit (h : c.isDigit) : isOperatorChar c = false := by
  rw [Bool.eq_false_iff]
  intro hc
  exact (isSign_iff.mp (isSign_of_isOperatorChar hc).1).2.2 h

theorem not_isWordPart_of_isOperatorChar (h : isOperatorChar c) : isWordPart c = false := by
  have hpart := of_isOperatorChar (P := fun d => !isWordPart d) (by decide) h
  simpa using hpart

theorem not_isWordPart_of_punctuation? {kind : TokenKind} (h : punctuation? c = some kind) :
    isWordPart c = false := by
  unfold punctuation? at h
  split at h
  · decide
  · decide
  · decide
  · decide
  · decide
  · cases h

end Characters

/-- Where a token would go on with a character it goes on with words or with operators. -/
theorem TokenKind.goesOn_eq_false {kind behind : TokenKind} {c : Char}
    (h : kind.runsInto behind = false) (hword : behind.isWord = false → isWordPart c = false)
    (hoperator : behind ≠ .operator → isOperatorChar c = false) : kind.goesOn c = false := by
  cases kind with
  | keyword | identifier | number => exact hword (by simpa [runsInto, isWord] using h)
  | operator => exact hoperator (by simpa [runsInto, isWord] using h)
  | _ => rfl

/-- A token ends in front of a lexeme that it does not run into. -/
theorem any_goesOn_spelling {l : Lexeme} (h : l.WellFormed) {kind : TokenKind}
    (hparted : kind.runsInto l.kind = false) (rest : List Char) :
    (l.spelling ++ rest).head?.any kind.goesOn = false := by
  have hword : ∀ {word : List Char} {k : TokenKind}, k.isWord → kind.runsInto k = false →
      word.head?.any isWordStart → (word ++ rest).head?.any kind.goesOn = false := by
    intro word k hk hruns hstart
    cases word with
    | nil => exact absurd hstart (by decide)
    | cons c word =>
      refine TokenKind.goesOn_eq_false hruns ?_ ?_
      · intro hnot
        rw [hk] at hnot
        cases hnot
      · intro _
        exact not_isOperatorChar_of_isWordStart hstart
  cases h with
  | keyword word => exact hword rfl hparted (isWord_spelling word).1
  | identifier hname => exact hword rfl hparted hname.start
  | @number digits hne hdigits hvalue =>
    obtain ⟨c, more, hcons⟩ := List.exists_cons_of_ne_nil hne
    have hc : c.isDigit := List.all_eq_true.mp hdigits c (by rw [hcons]; exact List.mem_cons_self)
    show (digits.toList ++ rest).head?.any kind.goesOn = false
    rw [hcons]
    exact TokenKind.goesOn_eq_false hparted nofun fun _ => not_isOperatorChar_of_isDigit hc
  | string _ =>
    show kind.goesOn '"' = false
    exact TokenKind.goesOn_eq_false hparted (fun _ => by decide) (fun _ => by decide)
  | @operator symbol hmem =>
    have hne : ∀ symbol ∈ operators, symbol.toList ≠ [] := by decide
    obtain ⟨c, more, hcons⟩ := List.exists_cons_of_ne_nil (hne symbol hmem)
    have hc : isOperatorChar c :=
      isOperatorChar_of_mem_operators hmem (by rw [hcons]; exact List.mem_cons_self)
    show (symbol.toList ++ rest).head?.any kind.goesOn = false
    rw [hcons]
    exact TokenKind.goesOn_eq_false hparted (fun _ => not_isWordPart_of_isOperatorChar hc)
      fun hne => absurd rfl hne
  | @punctuation c k hc =>
    have hspelling : Lexeme.spelling ⟨k, String.ofList [c]⟩ = [c] := by
      rw [Lexeme.spelling, if_neg (kind_of_punctuation? hc).2]
      exact String.toList_ofList
    rw [hspelling]
    refine TokenKind.goesOn_eq_false hparted ?_ ?_
    · intro _
      exact not_isWordPart_of_punctuation? hc
    · intro _
      simpa using (isSign_of_punctuation? hc).2.2

/-! ## What is found -/

theorem findings_blanks {blanks : List Char} (h : blanks.all Text.isBlank) (p : Position)
    (rest : List Char) : findings p (blanks ++ rest) = findings (p.afterAll blanks) rest := by
  induction blanks generalizing p with
  | nil => rfl
  | cons c blanks ih =>
    obtain ⟨hc, hblanks⟩ : Text.isBlank c ∧ blanks.all Text.isBlank := by simpa using h
    rw [List.cons_append, findings_blank hc, ih hblanks]
    rfl

/-- Behind a lexeme its token ends: there are blanks, or a lexeme that it does not run into, or
nothing. -/
theorem Parted.ends {l : Lexeme} {blanks : List Char} {pieces : List (Lexeme × List Char)}
    (h : Parted ((l, blanks) :: pieces)) :
    (blanks ++ written pieces).head?.any l.kind.goesOn = false := by
  have hblank : blanks.all Text.isBlank := h.blank (l, blanks) List.mem_cons_self
  cases blanks with
  | cons c blanks => exact not_goesOn_of_isBlank l.kind (List.all_eq_true.mp hblank c (by simp))
  | nil =>
    cases pieces with
    | nil => rfl
    | cons next pieces =>
      have hruns : l.kind.runsInto next.1.kind = false := by
        rw [Bool.eq_false_iff]
        intro hruns
        exact (List.isChain_cons_cons.mp h.apart).1 hruns rfl
      have hnext : next.1.WellFormed := h.wellFormed next (by simp)
      rw [List.nil_append, written, List.flatMap_cons, List.append_assoc]
      exact any_goesOn_spelling hnext hruns _

theorem Parted.tail {piece : Lexeme × List Char} {pieces : List (Lexeme × List Char)}
    (h : Parted (piece :: pieces)) : Parted pieces where
  wellFormed x hx := h.wellFormed x (List.mem_cons_of_mem piece hx)
  blank x hx := h.blank x (List.mem_cons_of_mem piece hx)
  apart := by
    cases pieces with
    | nil => exact .nil
    | cons next pieces => exact (List.isChain_cons_cons.mp h.apart).2

/-- The findings of lexemes in writing are tokens with these lexemes. -/
theorem Parted.exists_findings {pieces : List (Lexeme × List Char)} (h : Parted pieces)
    (p : Position) :
    ∃ tokens : List Token, findings p (written pieces) = tokens.map .ok ∧
      tokens.map Token.toLexeme = pieces.map Prod.fst := by
  induction pieces generalizing p with
  | nil => exact ⟨[], findings_nil p, rfl⟩
  | cons piece pieces ih =>
    obtain ⟨l, blanks⟩ := piece
    have hl : l.WellFormed := h.wellFormed (l, blanks) List.mem_cons_self
    have hblank : blanks.all Text.isBlank := h.blank (l, blanks) List.mem_cons_self
    obtain ⟨tokens, hfindings, hlexemes⟩ := ih h.tail ((p.afterAll l.spelling).afterAll blanks)
    refine ⟨l.token p :: tokens, ?_, ?_⟩
    · have hwritten : written ((l, blanks) :: pieces) =
          l.spelling ++ (blanks ++ written pieces) := List.append_assoc _ _ _
      rw [hwritten, findings_spelling hl h.ends, findings_blanks hblank, hfindings]
      rfl
    · rw [List.map_cons, hlexemes]
      rfl

/-- Lexemes in writing, with blanks in front of the first, are cut into tokens with just these
lexemes, in order, and the end of input. -/
theorem TokenStream.ofText_written {front : List Char} {pieces : List (Lexeme × List Char)}
    (hfront : front.all Text.isBlank) (h : Parted pieces) (source : String) :
    ∃ s, ofText source (String.ofList (front ++ written pieces)) = .ok s ∧
      s.toList.map Token.toLexeme = pieces.map Prod.fst ++ [⟨.endOfInput, ""⟩] := by
  obtain ⟨tokens, hfindings, hlexemes⟩ :=
    h.exists_findings ((Position.origin source).afterAll front)
  have hkinds : ∀ t ∈ tokens, t.kind ≠ .endOfInput := by
    intro t ht
    have hmem : t.toLexeme ∈ pieces.map Prod.fst := by
      rw [← hlexemes]
      exact List.mem_map_of_mem ht
    obtain ⟨piece, hpiece, hlexeme⟩ := List.mem_map.mp hmem
    have hkind := (h.wellFormed piece hpiece).kind_ne_endOfInput
    rwa [hlexeme] at hkind
  let s : TokenStream :=
    ⟨tokens, finishOf source (String.ofList (front ++ written pieces)), hkinds, rfl⟩
  refine ⟨s, ofText_eq_ok.mpr ⟨?_, rfl⟩, ?_⟩
  · rw [findingsOf, String.toList_ofList, findings_blanks hfront]
    exact hfindings
  · rw [toList, List.map_append, hlexemes]
    rfl

/-- A string between a keyword and a number, and an operator between a number and an operator that
an em space parts from it. -/
theorem TokenStream.ofText_written_closely :
    ∃ s, ofText "f" "\nSELECT\"a\\\"\"1<\u2003-é;" = .ok s ∧
      s.toList.map Token.toLexeme =
        [⟨.keyword, "SELECT"⟩, ⟨.string, "a\\\""⟩, ⟨.number, "1"⟩, ⟨.operator, "<"⟩,
          ⟨.operator, "-"⟩, ⟨.identifier, "é"⟩, ⟨.semicolon, ";"⟩, ⟨.endOfInput, ""⟩] := by
  have hfront : ['\n'].all Text.isBlank := by decide
  have hparted : Parted [(⟨.keyword, "SELECT"⟩, []), (⟨.string, "a\\\""⟩, []),
      (⟨.number, "1"⟩, []), (⟨.operator, "<"⟩, ['\u2003']), (⟨.operator, "-"⟩, []),
      (⟨.identifier, "é"⟩, []), (⟨.semicolon, ";"⟩, [])] := by
    refine ⟨?_, by decide, by simp; decide⟩
    simp only [List.forall_mem_cons]
    refine ⟨.keyword .SELECT, .string (by decide), .number (by decide) (by decide) (by decide),
      .operator (by decide), .operator (by decide), .identifier ⟨by decide, by decide, by decide⟩,
      .punctuation (c := ';') rfl, nofun⟩
  exact TokenStream.ofText_written hfront hparted "f"

end SqlForest
