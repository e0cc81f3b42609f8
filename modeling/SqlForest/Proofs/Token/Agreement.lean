import SqlForest.Proofs.Token.LongestMatch

/-!
# The automaton finds the longest matches

`Scanner.inside s mode taken` is the scanner that has begun a token where `s` waits and has taken
some characters for it.  While characters go on with the token the scanner stays of this form
(`feedAll_inside`), and what ends the token leaves a scanner that waits again, with the findings of
`munch` added and all characters that `munch` takes behind it (`Scanner.Comes`).  It does not matter
whether another character or the end of the text ends the token (`run_of_handedBack`).

`exists_comes` says this of one match, whatever it is.  By induction on the text the scan of a whole
text finds what `findings` does, and `TokenStream.ofText_eq_lex` is the same for the results.
-/

namespace SqlForest

namespace Scanner

/-! ## Scanners inside of tokens -/

/-- The scanner that has taken characters of the current line for a token that begins at the next
character of `s`. -/
def inside (s : Scanner) (mode : Mode) (taken : List Char) : Scanner :=
  { s with
    mode := mode
    column := taken.foldl (fun column _ => Position.countAfter column) s.column
    startColumn := s.column
    pending := taken.reverse }

theorem begin_advance_enter (s : Scanner) (c : Char) (mode : Mode) :
    (s.begin.advance c).enter mode = s.inside mode [c] := rfl

theorem inside_advance (s : Scanner) (mode : Mode) (taken : List Char) (c : Char) :
    (s.inside mode taken).advance c = s.inside mode (taken ++ [c]) := by
  simp [inside, advance]

theorem inside_enter (s : Scanner) (mode mode' : Mode) (taken : List Char) :
    (s.inside mode taken).enter mode' = s.inside mode' taken := rfl

theorem lexeme_inside (s : Scanner) (mode : Mode) (taken : List Char) :
    (s.inside mode taken).lexeme = taken :=
  List.reverse_reverse taken

/-- Characters of one line move the column only. -/
theorem position_inside (s : Scanner) (mode : Mode) {taken : List Char} (h : '\n' ∉ taken) :
    (s.inside mode taken).position = s.position.afterAll taken := by
  have hcolumn : ∀ p : Position, p.afterAll taken =
      { p with column := taken.foldl (fun column _ => Position.countAfter column) p.column } := by
    induction taken with
    | nil =>
      intro p
      rfl
    | cons c taken ih =>
      intro p
      have hc : c ≠ '\n' := by
        intro heq
        exact h (by rw [heq]; exact List.mem_cons_self)
      have htail : '\n' ∉ taken := fun hmem => h (List.mem_cons_of_mem c hmem)
      show (p.after c).afterAll taken = _
      rw [ih htail, Position.after, if_neg hc]
      rfl
  rw [hcolumn]
  rfl

/-! ## Runs -/

/-- The scanner at the end of a text. -/
def run (s : Scanner) (text : List Char) : Scanner :=
  (s.feedAll text).finish

theorem run_cons (s : Scanner) (c : Char) (text : List Char) :
    s.run (c :: text) = (s.feed c).run text := rfl

theorem run_append (s : Scanner) (us vs : List Char) :
    s.run (us ++ vs) = (s.feedAll us).run vs := by
  unfold run feedAll
  rw [List.foldl_append]

theorem run_nil {s : Scanner} (h : s.mode = .idle) : s.run [] = s := by
  show s.finish = s
  unfold finish
  rw [h]

theorem feed_of_consumed {s t : Scanner} {c : Char} (h : s.step c = .consumed t) :
    s.feed c = t := by
  unfold feed
  rw [h]

theorem feed_idle {s : Scanner} (h : s.mode = .idle) (c : Char) : s.feed c = s.takeIdle c := by
  apply feed_of_consumed
  unfold step
  rw [h]

/-- The character that ends a token is scanned as if the scan had started with it, and a token ends
in the same way if there is none. -/
theorem run_of_handedBack {s t : Scanner} {left : List Char} (ht : t.mode = .idle)
    (hend : left = [] → s.finish = t)
    (hnext : ∀ c rest, left = c :: rest → s.step c = .handedBack t) :
    s.run left = t.run left := by
  cases left with
  | nil =>
    rw [run_nil ht]
    exact hend rfl
  | cons c rest =>
    have hfeed : s.feed c = t.feed c := by
      rw [feed_idle ht]
      unfold feed
      rw [hnext c rest rfl]
    rw [run_cons, run_cons, hfeed]

section Longest

variable {s : Scanner} {mode : Mode} {goesOn : Char → Bool}

/-- Characters that go on with a token are taken for it. -/
theorem feedAll_inside
    (hgo : ∀ t : Scanner, t.mode = mode → ∀ c, goesOn c → t.step c = .consumed (t.advance c))
    (taken : List Char) {more : List Char} (hmore : ∀ c ∈ more, goesOn c) :
    (s.inside mode taken).feedAll more = s.inside mode (taken ++ more) := by
  induction more generalizing taken with
  | nil =>
    rw [List.append_nil]
    rfl
  | cons c more ih =>
    have hc : (s.inside mode taken).feed c = s.inside mode (taken ++ [c]) := by
      rw [feed_of_consumed (hgo _ rfl c (hmore c List.mem_cons_self)), inside_advance]
    have htail : ∀ d ∈ more, goesOn d := fun d hd => hmore d (List.mem_cons_of_mem c hd)
    show ((s.inside mode taken).feed c).feedAll more = _
    rw [hc, ih _ htail, List.append_assoc]
    rfl

theorem goesOn_of_mem_takeWhile {text : List Char} {c : Char} (h : c ∈ text.takeWhile goesOn) :
    goesOn c :=
  List.all_eq_true.mp List.all_takeWhile c h

theorem of_dropWhile_eq_cons {text rest : List Char} {c : Char}
    (h : text.dropWhile goesOn = c :: rest) : ¬ goesOn c := by
  have hhead := List.head?_dropWhile_not goesOn text
  rw [h] at hhead
  simpa using hhead

/-- The longest run of such characters is taken. -/
theorem run_longest (hidle : s.mode = .idle) {c : Char} (hc : s.takeIdle c = s.inside mode [c])
    (hgo : ∀ t : Scanner, t.mode = mode → ∀ c, goesOn c → t.step c = .consumed (t.advance c))
    (text : List Char) :
    s.run (c :: text) =
      (s.inside mode (c :: text.takeWhile goesOn)).run (text.dropWhile goesOn) := by
  have hsplit : text.takeWhile goesOn ++ text.dropWhile goesOn = text :=
    List.takeWhile_append_dropWhile
  calc s.run (c :: text)
      = (s.inside mode [c]).run (text.takeWhile goesOn ++ text.dropWhile goesOn) := by
        rw [run_cons, feed_idle hidle, hc, hsplit]
    _ = (s.inside mode (c :: text.takeWhile goesOn)).run (text.dropWhile goesOn) := by
        rw [run_append, feedAll_inside hgo [c] fun _ => goesOn_of_mem_takeWhile]
        rfl

end Longest

/-! ## From one token to the next -/

/-- `t` waits for a token behind these characters, and has these findings on top of those of `s`. -/
structure Comes (s t : Scanner) (taken : List Char) (found : List (Except Diagnostic Token)) :
    Prop where
  mode : t.mode = .idle
  position : t.position = s.position.afterAll taken
  tokens : t.tokens = (found.filterMap Except.toOption).reverse ++ s.tokens
  diagnostics : t.diagnostics = (found.filterMap errorOf?).reverse ++ s.diagnostics

theorem comes_nil {s : Scanner} (h : s.mode = .idle) : s.Comes s [] [] :=
  ⟨h, rfl, rfl, rfl⟩

theorem Comes.trans {s t u : Scanner} {taken taken' : List Char}
    {found found' : List (Except Diagnostic Token)} (h : s.Comes t taken found)
    (h' : t.Comes u taken' found') : s.Comes u (taken ++ taken') (found ++ found') where
  mode := h'.mode
  position := by rw [h'.position, h.position, Position.afterAll_append]
  tokens := by
    rw [h'.tokens, h.tokens, List.filterMap_append, List.reverse_append, List.append_assoc]
  diagnostics := by
    rw [h'.diagnostics, h.diagnostics, List.filterMap_append, List.reverse_append,
      List.append_assoc]

variable {s : Scanner} {c : Char}

theorem newline_not_mem_run {goesOn : Char → Bool} (hc : c ≠ '\n') (hnewline : goesOn '\n' = false)
    (text : List Char) : '\n' ∉ c :: text.takeWhile goesOn := by
  intro hmem
  rcases List.mem_cons.mp hmem with heq | hmem
  · exact hc heq.symm
  · have hgoes := goesOn_of_mem_takeWhile hmem
    rw [hnewline] at hgoes
    simp at hgoes

theorem comes_finishWord {taken : List Char} (h : '\n' ∉ taken) :
    s.Comes ((s.inside .word taken).finishWord.enter .idle) taken
      [.ok (wordToken s.position taken)] := by
  unfold finishWord wordToken
  rw [lexeme_inside]
  cases Keyword.ofWord? (String.ofList taken) with
  | none =>
    exact ⟨rfl, position_inside s .word h, rfl, rfl⟩
  | some keyword =>
    refine ⟨rfl, position_inside s .word h, ?_, rfl⟩
    show ⟨.keyword, String.ofList keyword.spelling.toList, s.position⟩ :: s.tokens = _
    rw [String.ofList_toList]
    rfl

theorem comes_finishOperator {taken : List Char} (h : '\n' ∉ taken) :
    s.Comes ((s.inside .operator taken).finishOperator.enter .idle) taken
      [operatorFinding s.position taken] := by
  unfold finishOperator operatorFinding
  rw [lexeme_inside]
  split
  · exact ⟨rfl, position_inside s .operator h, rfl, rfl⟩
  · exact ⟨rfl, position_inside s .operator h, rfl, rfl⟩

/-- The longest run is taken, and what ends it leaves a scanner that waits.  The run may end at
another character or at the end of the text. -/
theorem exists_comes_longest {mode : Mode} {goesOn : Char → Bool}
    {found : List (Except Diagnostic Token)} {t : Scanner} (hidle : s.mode = .idle)
    (hc : s.takeIdle c = s.inside mode [c])
    (hgo : ∀ t : Scanner, t.mode = mode → ∀ c, goesOn c → t.step c = .consumed (t.advance c))
    {text : List Char}
    (hend : text.dropWhile goesOn = [] → (s.inside mode (c :: text.takeWhile goesOn)).finish = t)
    (hnext : ∀ d rest, text.dropWhile goesOn = d :: rest →
      (s.inside mode (c :: text.takeWhile goesOn)).step d = .handedBack t)
    (hcomes : s.Comes t (c :: text.takeWhile goesOn) found) :
    ∃ t, s.run (c :: text) = t.run (text.dropWhile goesOn) ∧
      s.Comes t (c :: text.takeWhile goesOn) found := by
  refine ⟨t, ?_, hcomes⟩
  rw [run_longest hidle hc hgo]
  exact run_of_handedBack hcomes.mode hend hnext

theorem exists_comes_word (hidle : s.mode = .idle) (hnewline : c ≠ '\n')
    (hc : s.takeIdle c = s.inside .word [c]) (text : List Char) :
    ∃ t, s.run (c :: text) = t.run (text.dropWhile isWordPart) ∧
      s.Comes t (c :: text.takeWhile isWordPart)
        [.ok (wordToken s.position (c :: text.takeWhile isWordPart))] := by
  have htaken : '\n' ∉ c :: text.takeWhile isWordPart :=
    newline_not_mem_run hnewline (by decide) text
  refine exists_comes_longest hidle hc ?_ ?_ ?_ (comes_finishWord htaken)
  · intro t ht d hd
    unfold step
    rw [ht]
    exact if_pos hd
  · intro _
    rfl
  · intro d rest hcons
    unfold step
    exact if_neg (of_dropWhile_eq_cons hcons)

theorem exists_comes_operator (hidle : s.mode = .idle) (hnewline : c ≠ '\n')
    (hc : s.takeIdle c = s.inside .operator [c]) (text : List Char) :
    ∃ t, s.run (c :: text) = t.run (text.dropWhile isOperatorChar) ∧
      s.Comes t (c :: text.takeWhile isOperatorChar)
        [operatorFinding s.position (c :: text.takeWhile isOperatorChar)] := by
  have htaken : '\n' ∉ c :: text.takeWhile isOperatorChar :=
    newline_not_mem_run hnewline (by decide) text
  refine exists_comes_longest hidle hc ?_ ?_ ?_ (comes_finishOperator htaken)
  · intro t ht d hd
    unfold step
    rw [ht]
    exact if_pos hd
  · intro _
    rfl
  · intro d rest hcons
    unfold step
    exact if_neg (of_dropWhile_eq_cons hcons)

theorem comes_finishDigits {taken left : List Char} (h : '\n' ∉ taken)
    (hleft : ¬ left.head?.any isWordPart) :
    s.Comes ((s.inside .digits taken).finishDigits.enter .idle) taken
      [digitsFinding s.position taken left] := by
  unfold finishDigits digitsFinding
  rw [lexeme_inside, if_neg hleft]
  cases Integer.ofText? (String.ofList taken) with
  | none => exact ⟨rfl, position_inside s .digits h, rfl, rfl⟩
  | some value => exact ⟨rfl, position_inside s .digits h, rfl, rfl⟩

theorem comes_lumped {taken left : List Char} (h : '\n' ∉ taken)
    (hleft : left.head?.any isWordPart) :
    s.Comes (((s.inside .digits taken).rejectChar .lumpedNumber).enter .idle) taken
      [digitsFinding s.position taken left] := by
  unfold digitsFinding
  rw [if_pos hleft]
  refine ⟨rfl, position_inside s .digits h, rfl, ?_⟩
  show ⟨(s.inside .digits taken).position, _⟩ :: s.diagnostics = _
  rw [position_inside s .digits h]
  rfl

/-- What becomes of digits depends on the character behind them. -/
theorem exists_comes_digits (hidle : s.mode = .idle) (hnewline : c ≠ '\n')
    (hc : s.takeIdle c = s.inside .digits [c]) (text : List Char) :
    ∃ t, s.run (c :: text) = t.run (text.dropWhile Char.isDigit) ∧
      s.Comes t (c :: text.takeWhile Char.isDigit)
        [digitsFinding s.position (c :: text.takeWhile Char.isDigit)
          (text.dropWhile Char.isDigit)] := by
  have htaken : '\n' ∉ c :: text.takeWhile Char.isDigit :=
    newline_not_mem_run hnewline (by decide) text
  have hgo : ∀ t : Scanner, t.mode = .digits → ∀ d, Char.isDigit d →
      t.step d = .consumed (t.advance d) := by
    intro t ht d hd
    unfold step
    rw [ht]
    exact if_pos hd
  by_cases hleft : (text.dropWhile Char.isDigit).head?.any isWordPart
  · refine exists_comes_longest hidle hc hgo ?_ ?_ (comes_lumped htaken hleft)
    · intro hnil
      rw [hnil] at hleft
      simp at hleft
    · intro d rest hcons
      rw [hcons] at hleft
      have hd : isWordPart d := by simpa using hleft
      unfold step
      show (if d.isDigit then _ else _) = _
      rw [if_neg (of_dropWhile_eq_cons hcons), if_pos hd]
  · refine exists_comes_longest hidle hc hgo ?_ ?_ (comes_finishDigits htaken hleft)
    · intro _
      rfl
    · intro d rest hcons
      rw [hcons] at hleft
      have hd : ¬ isWordPart d := by simpa using hleft
      unfold step
      show (if d.isDigit then _ else _) = _
      rw [if_neg (of_dropWhile_eq_cons hcons), if_neg hd]

theorem ne_newline_of_not_isBlank (h : ¬ Text.isBlank c) : c ≠ '\n' := by
  intro heq
  rw [heq] at h
  exact h (by decide)

/-- Blank characters are skipped, and one of them goes to the next line. -/
theorem comes_blank (hidle : s.mode = .idle) (hblank : Text.isBlank c) :
    s.Comes (s.takeIdle c) [c] [] := by
  unfold takeIdle
  by_cases hnewline : c = '\n'
  · rw [if_pos hnewline]
    refine ⟨hidle, ?_, rfl, rfl⟩
    show _ = s.position.after c
    rw [Position.after, if_pos hnewline]
    rfl
  · rw [if_neg hnewline, if_pos hblank]
    refine ⟨hidle, ?_, rfl, rfl⟩
    show _ = s.position.after c
    rw [Position.after, if_neg hnewline]
    rfl

theorem comes_single (hidle : s.mode = .idle) (hblank : ¬ Text.isBlank c)
    (hword : ¬ isWordStart c) (hdigit : ¬ c.isDigit) (hquote : c ≠ '"')
    (hoperator : ¬ isOperatorChar c) :
    s.Comes (s.takeIdle c) [c] [singleFinding s.position c] := by
  have hnewline : c ≠ '\n' := ne_newline_of_not_isBlank hblank
  have hposition : s.position.afterAll [c] =
      { s.position with column := Position.countAfter s.position.column } := if_neg hnewline
  unfold singleFinding
  rw [takeIdle, if_neg hnewline, if_neg hblank, if_neg hword, if_neg hdigit, if_neg hquote,
    if_neg hoperator]
  cases punctuation? c with
  | none => exact ⟨hidle, hposition.symm, rfl, rfl⟩
  | some kind => exact ⟨hidle, hposition.symm, rfl, rfl⟩

/-! ## Strings -/

/-- Adds faults that have been found in the order of the list. -/
def blame (s : Scanner) (faults : List Diagnostic) : Scanner :=
  { s with diagnostics := faults.reverse ++ s.diagnostics }

/-- Ends a string behind its body. -/
def closeQuoted (s : Scanner) : List Char → Scanner
  | [] => (s.rejectChar .unterminatedString).enter .idle
  | c :: _ =>
    if c = '"' then (s.advance c).finishQuoted.enter .idle
    else (s.rejectChar .multilineString).enter .idle

/-- What is left behind the end of a string. -/
def behindQuoted : List Char → List Char
  | [] => []
  | c :: left => if c = '"' then left else c :: left

theorem run_lineEnd {s : Scanner} {c : Char} (hmode : s.mode = .quoted ∨ s.mode = .escape)
    (hc : isLineEnd c) (text : List Char) :
    s.run (c :: text) = ((s.rejectChar .multilineString).enter .idle).run (c :: text) := by
  apply run_of_handedBack
  · rfl
  · intro hnil
    simp at hnil
  · intro d rest hcons
    rw [← (List.cons.inj hcons).1]
    have hquote : c ≠ '"' := by
      intro heq
      rw [heq] at hc
      simp [isLineEnd] at hc
    have hbackslash : c ≠ '\\' := by
      intro heq
      rw [heq] at hc
      simp [isLineEnd] at hc
    unfold step
    rcases hmode with hmode | hmode
    · rw [hmode]
      show (if c = '"' then _ else _) = _
      rw [if_neg hquote, if_neg hbackslash, if_pos hc]
    · rw [hmode]
      exact if_pos hc

/-- A character that belongs to a string as it is. -/
theorem run_plain {s : Scanner} {taken : List Char} {c : Char} (hquote : c ≠ '"')
    (hbackslash : c ≠ '\\') (hend : ¬ isLineEnd c) (text : List Char) :
    (s.inside .quoted taken).run (c :: text) = (s.inside .quoted (taken ++ [c])).run text := by
  have hfeed : (s.inside .quoted taken).feed c = s.inside .quoted (taken ++ [c]) := by
    apply feed_of_consumed
    unfold step
    show (if c = '"' then _ else _) = _
    rw [if_neg hquote, if_neg hbackslash, if_neg hend, inside_advance]
  rw [run_cons, hfeed]

theorem run_backslash {s : Scanner} {taken : List Char} (text : List Char) :
    (s.inside .quoted taken).run ('\\' :: text) =
      (s.inside .escape (taken ++ ['\\'])).run text := by
  have hfeed : (s.inside .quoted taken).feed '\\' = s.inside .escape (taken ++ ['\\']) := by
    apply feed_of_consumed
    show Step.consumed (((s.inside .quoted taken).advance '\\').enter .escape) = _
    rw [inside_advance, inside_enter]
  rw [run_cons, hfeed]

/-- The fault of a character behind a backslash, if there is one. -/
def escapeFault (p : Position) (c : Char) : List Diagnostic :=
  if isEscapable c then [] else [⟨p, .lexical (.invalidEscape c)⟩]

theorem run_escape {s : Scanner} {taken : List Char} {c : Char} (hnewline : '\n' ∉ taken)
    (hend : ¬ isLineEnd c) (text : List Char) :
    (s.inside .escape taken).run (c :: text) =
      ((s.blame (escapeFault (s.position.afterAll taken) c)).inside .quoted (taken ++ [c])).run
        text := by
  have hfeed : (s.inside .escape taken).feed c =
      (s.blame (escapeFault (s.position.afterAll taken) c)).inside .quoted (taken ++ [c]) := by
    apply feed_of_consumed
    unfold step escapeFault
    show (if isLineEnd c then _ else _) = _
    rw [if_neg hend]
    by_cases hescape : isEscapable c
    · rw [if_pos hescape, if_pos hescape, inside_advance, inside_enter]
      rfl
    · have hblame : (s.inside .escape taken).rejectChar (.invalidEscape c) =
          (s.blame [⟨(s.inside .escape taken).position, .lexical (.invalidEscape c)⟩]).inside
            .escape taken := rfl
      rw [if_neg hescape, if_neg hescape, hblame, inside_advance, inside_enter,
        position_inside s .escape hnewline]
  rw [run_cons, hfeed]

theorem blame_blame (s : Scanner) (faults later : List Diagnostic) :
    (s.blame faults).blame later = s.blame (faults ++ later) := by
  unfold blame
  rw [List.reverse_append, List.append_assoc]

theorem escapeFaults_pair (p : Position) (c : Char) (text : List Char) :
    escapeFaults p ('\\' :: c :: text) =
      escapeFault (p.after '\\') c ++ escapeFaults ((p.after '\\').after c) text := by
  unfold escapeFault
  rw [escapeFaults]
  by_cases hescape : isEscapable c
  · rw [if_pos hescape, if_pos hescape]
    rfl
  · rw [if_neg hescape, if_neg hescape]
    rfl

theorem escapeFaults_plain (p : Position) {c : Char} (h : c ≠ '\\') (text : List Char) :
    escapeFaults p (c :: text) = escapeFaults (p.after c) text := by
  rw [escapeFaults]
  intro _ _ hc
  exact absurd hc h

theorem ne_newline {c : Char} (h : ¬ isLineEnd c) : c ≠ '\n' := by
  intro heq
  rw [heq] at h
  exact h (by decide)

theorem newline_not_mem_append {taken : List Char} {c : Char} (h : '\n' ∉ taken) (hc : c ≠ '\n') :
    '\n' ∉ taken ++ [c] := by
  intro hmem
  rcases List.mem_append.mp hmem with hmem | hmem
  · exact h hmem
  · exact hc (List.mem_singleton.mp hmem).symm

/-- The scanner takes the body of a string, with its faults, and ends the string behind it. -/
theorem run_quoted {s : Scanner} {taken : List Char} (hnewline : '\n' ∉ taken)
    (text : List Char) :
    (s.inside .quoted taken).run text =
      (((s.blame (escapeFaults (s.position.afterAll taken) (quotedBody text))).inside .quoted
        (taken ++ quotedBody text)).closeQuoted (text.drop (quotedBody text).length)).run
        (behindQuoted (text.drop (quotedBody text).length)) := by
  fun_induction quotedBody text generalizing s taken with
  | case1 =>
    rw [List.append_nil]
    rfl
  | case2 c cs hend =>
    have hquote : c ≠ '"' := by
      intro heq
      rw [heq] at hend
      simp [isLineEnd] at hend
    rw [run_backslash, run_lineEnd (Or.inr rfl) hend]
    show _ = (((s.inside .quoted (taken ++ ['\\'])).closeQuoted (c :: cs)).run
      (behindQuoted (c :: cs)))
    rw [closeQuoted, behindQuoted, if_neg hquote, if_neg hquote]
    rfl
  | case3 c cs hend ih =>
    have hbefore : '\n' ∉ taken ++ ['\\'] := newline_not_mem_append hnewline (by decide)
    have hbehind : '\n' ∉ taken ++ ['\\'] ++ [c] :=
      newline_not_mem_append hbefore (ne_newline hend)
    have hposition : s.position.afterAll (taken ++ ['\\']) =
        (s.position.afterAll taken).after '\\' := Position.afterAll_append _ _ _
    have hposition' : s.position.afterAll (taken ++ ['\\'] ++ [c]) =
        ((s.position.afterAll taken).after '\\').after c := by
      rw [Position.afterAll_append, hposition]
      rfl
    rw [run_backslash, run_escape hbefore hend, ih hbehind, blame_blame, escapeFaults_pair]
    show _ = (closeQuoted _ (cs.drop _)).run (behindQuoted (cs.drop _))
    have hblame : ∀ faults, (s.blame faults).position = s.position := fun _ => rfl
    rw [hblame, hposition, hposition', List.append_assoc, List.append_assoc]
    rfl
  | case4 c cs hpair hend =>
    rw [List.append_nil]
    show _ = ((s.inside .quoted taken).closeQuoted (c :: cs)).run (behindQuoted (c :: cs))
    rw [closeQuoted, behindQuoted]
    by_cases hquote : c = '"'
    · have hfeed : (s.inside .quoted taken).feed c =
          ((s.inside .quoted taken).advance c).finishQuoted.enter .idle := by
        apply feed_of_consumed
        unfold step
        exact if_pos hquote
      rw [if_pos hquote, if_pos hquote, run_cons, hfeed]
    · have hline : isLineEnd c := by simpa [hquote] using hend
      rw [if_neg hquote, if_neg hquote]
      exact run_lineEnd (Or.inl rfl) hline cs
  | case5 c cs hpair hend ih =>
    have hquote : c ≠ '"' := fun heq => hend (Or.inl heq)
    have hline : ¬ isLineEnd c := fun h => hend (Or.inr h)
    by_cases hbackslash : c = '\\'
    · -- The backslash is the last character of the text.
      cases cs with
      | nil =>
        rw [hbackslash, run_backslash]
        rfl
      | cons d cs => exact absurd rfl (hpair d cs hbackslash)
    · have hbehind : '\n' ∉ taken ++ [c] := newline_not_mem_append hnewline (ne_newline hline)
      have hposition : s.position.afterAll (taken ++ [c]) =
          (s.position.afterAll taken).after c := Position.afterAll_append _ _ _
      rw [run_plain hquote hbackslash hline, ih hbehind, escapeFaults_plain _ hbackslash,
        hposition, List.append_assoc]
      rfl

/-- A string spans no lines. -/
theorem newline_not_mem_quotedBody (text : List Char) : '\n' ∉ quotedBody text := by
  fun_induction quotedBody text with
  | case1 => simp
  | case2 c cs hend => simp
  | case3 c cs hend ih =>
    have hc := ne_newline hend
    intro hmem
    simp only [List.mem_cons] at hmem
    rcases hmem with heq | heq | hmem
    · exact absurd heq (by decide)
    · exact hc heq.symm
    · exact ih hmem
  | case4 c cs _ hend => simp
  | case5 c cs _ hend ih =>
    have hc : c ≠ '\n' := ne_newline fun h => hend (Or.inr h)
    intro hmem
    rcases List.mem_cons.mp hmem with heq | hmem
    · exact hc heq.symm
    · exact ih hmem

theorem newline_not_mem_quote {body : List Char} (h : '\n' ∉ body) : '\n' ∉ '"' :: body := by
  intro hmem
  rcases List.mem_cons.mp hmem with heq | hmem
  · exact absurd heq (by decide)
  · exact h hmem

theorem comes_blame {s : Scanner} (hidle : s.mode = .idle) (faults : List Diagnostic) :
    s.Comes (s.blame faults) [] (faults.map .error) := by
  refine ⟨hidle, rfl, ?_, ?_⟩
  · rw [filterMap_toOption_map_error]
    rfl
  · rw [filterMap_errorOf?_map_error]
    rfl

theorem comes_closeQuoted {s : Scanner} {body : List Char} (h : '\n' ∉ body) (rest : List Char) :
    s.Comes ((s.inside .quoted ('"' :: body)).closeQuoted rest)
      (stringEnd s.position body rest).taken (stringEnd s.position body rest).found := by
  have hposition := position_inside s .quoted (newline_not_mem_quote h)
  have hfault : ∀ fault : LexicalFault,
      s.Comes (((s.inside .quoted ('"' :: body)).rejectChar fault).enter .idle) ('"' :: body)
        [.error ⟨s.position.afterAll ('"' :: body), .lexical fault⟩] := by
    intro fault
    refine ⟨rfl, hposition, rfl, ?_⟩
    show ⟨(s.inside .quoted ('"' :: body)).position, _⟩ :: s.diagnostics = _
    rw [hposition]
    rfl
  cases rest with
  | nil => exact hfault .unterminatedString
  | cons c left =>
    rw [closeQuoted, stringEnd]
    by_cases hquote : c = '"'
    · rw [if_pos hquote, if_pos hquote, hquote, inside_advance]
      have hclosed : '\n' ∉ '"' :: body ++ ['"'] :=
        newline_not_mem_append (newline_not_mem_quote h) (by decide)
      refine ⟨rfl, position_inside s .quoted hclosed, ?_, rfl⟩
      show ⟨.string, String.ofList (s.inside .quoted ('"' :: body ++ ['"'])).lexeme.tail.dropLast,
        s.position⟩ :: s.tokens = _
      rw [lexeme_inside]
      show ⟨.string, String.ofList (body ++ ['"']).dropLast, s.position⟩ :: s.tokens = _
      rw [List.dropLast_concat]
      rfl
    · rw [if_neg hquote, if_neg hquote]
      exact hfault .multilineString

theorem left_stringEnd (p : Position) (body rest : List Char) :
    (stringEnd p body rest).left = behindQuoted rest := by
  cases rest with
  | nil => rfl
  | cons c left =>
    by_cases hquote : c = '"'
    · simp [stringEnd, behindQuoted, hquote]
    · simp [stringEnd, behindQuoted, hquote]

theorem exists_comes_string {s : Scanner} (hidle : s.mode = .idle)
    (hc : s.takeIdle '"' = s.inside .quoted ['"']) (text : List Char) :
    ∃ t, s.run ('"' :: text) = t.run (munchString s.position text).left ∧
      s.Comes t (munchString s.position text).taken (munchString s.position text).found := by
  have hbody := newline_not_mem_quotedBody text
  refine ⟨_, ?_, (comes_blame hidle _).trans (comes_closeQuoted hbody _)⟩
  rw [run_cons, feed_idle hidle, hc, run_quoted (by decide)]
  show _ = Scanner.run _ (stringEnd s.position _ _).left
  rw [left_stringEnd]
  rfl

/-! ## Whole texts -/

/-- A scanner that waits takes the longest match. -/
theorem exists_comes {s : Scanner} (hidle : s.mode = .idle) (c : Char) (text : List Char) :
    ∃ t, s.run (c :: text) = t.run (munch s.position c text).left ∧
      s.Comes t (munch s.position c text).taken (munch s.position c text).found := by
  by_cases hblank : Text.isBlank c
  · simp only [munch, if_pos hblank]
    refine ⟨s.takeIdle c, ?_, comes_blank hidle hblank⟩
    rw [run_cons, feed_idle hidle]
  · have hnewline : c ≠ '\n' := ne_newline_of_not_isBlank hblank
    by_cases hword : isWordStart c
    · have hc : s.takeIdle c = s.inside .word [c] := by
        rw [takeIdle, if_neg hnewline, if_neg hblank, if_pos hword, begin_advance_enter]
      simp only [munch, if_neg hblank, if_pos hword]
      exact exists_comes_word hidle hnewline hc text
    · by_cases hdigit : c.isDigit
      · have hc : s.takeIdle c = s.inside .digits [c] := by
          rw [takeIdle, if_neg hnewline, if_neg hblank, if_neg hword, if_pos hdigit,
            begin_advance_enter]
        simp only [munch, if_neg hblank, if_neg hword, if_pos hdigit]
        exact exists_comes_digits hidle hnewline hc text
      · by_cases hquote : c = '"'
        · have hc : s.takeIdle '"' = s.inside .quoted ['"'] := by
            rw [← hquote, takeIdle, if_neg hnewline, if_neg hblank, if_neg hword, if_neg hdigit,
              if_pos hquote, begin_advance_enter]
          simp only [munch, if_neg hblank, if_neg hword, if_neg hdigit, if_pos hquote]
          rw [hquote]
          exact exists_comes_string hidle hc text
        · by_cases hoperator : isOperatorChar c
          · have hc : s.takeIdle c = s.inside .operator [c] := by
              rw [takeIdle, if_neg hnewline, if_neg hblank, if_neg hword, if_neg hdigit,
                if_neg hquote, if_pos hoperator, begin_advance_enter]
            simp only [munch, if_neg hblank, if_neg hword, if_neg hdigit, if_neg hquote,
              if_pos hoperator]
            exact exists_comes_operator hidle hnewline hc text
          · simp only [munch, if_neg hblank, if_neg hword, if_neg hdigit, if_neg hquote,
              if_neg hoperator]
            refine ⟨s.takeIdle c, ?_, comes_single hidle hblank hword hdigit hquote hoperator⟩
            rw [run_cons, feed_idle hidle]

/-- The scan of a text finds the longest matches.  The induction is on the length of the text: each
match leaves less of it. -/
theorem comes_run {s : Scanner} (hidle : s.mode = .idle) (text : List Char) :
    s.Comes (s.run text) text (findings s.position text) := by
  induction hn : text.length using Nat.strongRecOn generalizing s text with
  | ind n ih =>
    cases text with
    | nil =>
      rw [run_nil hidle, findings_nil]
      exact comes_nil hidle
    | cons c text =>
      obtain ⟨t, hrun, hcomes⟩ := exists_comes hidle c text
      have hle := length_left_le s.position c text
      simp only [List.length_cons] at hn
      have hlater := ih _ (by omega) hcomes.mode (munch s.position c text).left rfl
      rw [hcomes.position] at hlater
      have htext := taken_append_left s.position c text
      have hall := hcomes.trans hlater
      rw [htext, ← findings_cons] at hall
      rw [hrun]
      exact hall

end Scanner

/-- The result of a scan without the proofs that make a stream of its tokens. -/
theorem TokenStream.map_toList_ofText (source text : String) :
    (ofText source text).map toList =
      if (Scanner.ofText source text).diagnostics.isEmpty then
        .ok ((Scanner.ofText source text).tokens.reverse ++
          [⟨.endOfInput, "", (Scanner.ofText source text).position⟩])
      else .error (Scanner.ofText source text).diagnostics.reverse := by
  unfold ofText
  dsimp only
  cases hd : (Scanner.ofText source text).diagnostics with
  | nil => rfl
  | cons d ds => rfl

/-- The automaton gives the tokens and the diagnostics that longest matches give. -/
theorem TokenStream.ofText_eq_lex (source text : String) :
    (ofText source text).map toList = lex source text := by
  have hcomes : (Scanner.start source).Comes (Scanner.ofText source text) text.toList
      (findings (Position.origin source) text.toList) := Scanner.comes_run rfl text.toList
  have htokens : (findings (Position.origin source) text.toList).filterMap Except.toOption =
      (Scanner.ofText source text).tokens.reverse := by
    rw [hcomes.tokens, List.reverse_append, List.reverse_reverse]
    rfl
  have hdiagnostics : (findings (Position.origin source) text.toList).filterMap errorOf? =
      (Scanner.ofText source text).diagnostics.reverse := by
    rw [hcomes.diagnostics, List.reverse_append, List.reverse_reverse]
    rfl
  have hposition : (Position.origin source).afterAll text.toList =
      (Scanner.ofText source text).position := hcomes.position.symm
  unfold lex
  rw [gather_eq, htokens, hdiagnostics, hposition, map_toList_ofText, List.isEmpty_reverse]
  split
  · rfl
  · rfl

end SqlForest
