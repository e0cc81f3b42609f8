import SqlForest.Proofs.Gather

/-!
# Tokens by longest match

`lex` cuts a text into tokens without an automaton.  At every character it takes as much of the text
as belongs together (`munch`): a blank character, the longest word, the longest run of digits or of
operator characters, a string up to where it ends, or a single character.  What it takes is a
beginning of the text (`taken_append_left`), so `findings` goes on with less.
-/

namespace SqlForest

/-! ## Positions behind characters -/

/-- The position of the first character of a text. -/
def Position.origin (source : String) : Position :=
  ⟨source, 1, 1⟩

/-- The position behind a character. -/
def Position.after (p : Position) (c : Char) : Position :=
  if c = '\n' then { p with line := countAfter p.line, column := 1 }
  else { p with column := countAfter p.column }

/-- The position behind all characters of a text. -/
def Position.afterAll (p : Position) (text : List Char) : Position :=
  text.foldl after p

theorem Position.afterAll_append (p : Position) (us vs : List Char) :
    p.afterAll (us ++ vs) = (p.afterAll us).afterAll vs :=
  List.foldl_append

/-! ## Strings -/

/-- What a string holds: all characters up to the first quote without a backslash in front of it, or
to the end of the line or of the text.  A backslash takes the next character with it. -/
def quotedBody : List Char → List Char
  | [] => []
  | '\\' :: c :: cs => if isLineEnd c then ['\\'] else '\\' :: c :: quotedBody cs
  | c :: cs => if c = '"' ∨ isLineEnd c then [] else c :: quotedBody cs

/-- The faults inside of a string that starts at a position: every backslash in front of a character
with which it forms no escape sequence, reported at that character. -/
def escapeFaults (p : Position) : List Char → List Diagnostic
  | [] => []
  | '\\' :: c :: cs =>
    let later := escapeFaults ((p.after '\\').after c) cs
    if isEscapable c then later
    else ⟨p.after '\\', .lexical (.invalidEscape c)⟩ :: later
  | c :: cs => escapeFaults (p.after c) cs

/-! ## Longest matches -/

/-- What is taken from the beginning of a text: the characters, what they are, and what is left. -/
structure Munch where
  found : List (Except Diagnostic Token)
  taken : List Char
  left : List Char
deriving Repr

/-- A word, which is a keyword or an identifier. -/
def wordToken (p : Position) (word : List Char) : Token :=
  match Keyword.ofWord? (String.ofList word) with
  | some keyword => ⟨.keyword, keyword.spelling, p⟩
  | none => ⟨.identifier, String.ofList word, p⟩

/-- A run of digits in front of what is left. -/
def digitsFinding (p : Position) (digits left : List Char) : Except Diagnostic Token :=
  if left.head?.any isWordPart then .error ⟨p.afterAll digits, .lexical .lumpedNumber⟩
  else if (Integer.ofText? (String.ofList digits)).isSome then
    .ok ⟨.number, String.ofList digits, p⟩
  else .error ⟨p, .lexical (.numberTooLong (String.ofList digits))⟩

/-- A run of operator characters. -/
def operatorFinding (p : Position) (run : List Char) : Except Diagnostic Token :=
  if String.ofList run ∈ operators then .ok ⟨.operator, String.ofList run, p⟩
  else .error ⟨p, .lexical (.invalidOperator (String.ofList run))⟩

/-- A character that is neither blank nor begins anything longer. -/
def singleFinding (p : Position) (c : Char) : Except Diagnostic Token :=
  match punctuation? c with
  | some kind => .ok ⟨kind, String.ofList [c], p⟩
  | none => .error ⟨p, .lexical (.invalidToken c)⟩

/-- The end of a string that starts at a position and has the given body: a quote, the end of the
line, or the end of the text. -/
def stringEnd (p : Position) (body : List Char) : List Char → Munch
  | [] => ⟨[.error ⟨p.afterAll ('"' :: body), .lexical .unterminatedString⟩], '"' :: body, []⟩
  | c :: left =>
    if c = '"' then ⟨[.ok ⟨.string, String.ofList body, p⟩], '"' :: (body ++ ['"']), left⟩
    else ⟨[.error ⟨p.afterAll ('"' :: body), .lexical .multilineString⟩], '"' :: body, c :: left⟩

/-- A string whose quote stands at a position in front of the text. -/
def munchString (p : Position) (text : List Char) : Munch :=
  let body := quotedBody text
  let ending := stringEnd p body (text.drop body.length)
  { ending with found := (escapeFaults (p.after '"') body).map Except.error ++ ending.found }

/-- The longest match at a position in front of a character and the text behind it. -/
def munch (p : Position) (c : Char) (text : List Char) : Munch :=
  if Text.isBlank c then ⟨[], [c], text⟩
  else if isWordStart c then
    let word := c :: text.takeWhile isWordPart
    ⟨[.ok (wordToken p word)], word, text.dropWhile isWordPart⟩
  else if c.isDigit then
    let digits := c :: text.takeWhile Char.isDigit
    let left := text.dropWhile Char.isDigit
    ⟨[digitsFinding p digits left], digits, left⟩
  else if c = '"' then munchString p text
  else if isOperatorChar c then
    let run := c :: text.takeWhile isOperatorChar
    ⟨[operatorFinding p run], run, text.dropWhile isOperatorChar⟩
  else ⟨[singleFinding p c], [c], text⟩

/-- The body of a string is a beginning of what follows its quote. -/
theorem quotedBody_append_drop (text : List Char) :
    quotedBody text ++ text.drop (quotedBody text).length = text := by
  fun_induction quotedBody text with
  | case1 => rfl
  | case2 c cs h => rfl
  | case3 c cs h ih =>
    show '\\' :: c :: (quotedBody cs ++ cs.drop (quotedBody cs).length) = '\\' :: c :: cs
    rw [ih]
  | case4 c cs _ h => rfl
  | case5 c cs _ h ih =>
    show c :: (quotedBody cs ++ cs.drop (quotedBody cs).length) = c :: cs
    rw [ih]

theorem stringEnd_append (p : Position) (body rest : List Char) :
    (stringEnd p body rest).taken ++ (stringEnd p body rest).left = '"' :: (body ++ rest) := by
  cases rest with
  | nil => rfl
  | cons c left =>
    by_cases hquote : c = '"'
    · simp [stringEnd, hquote]
    · simp [stringEnd, hquote]

theorem munchString_append (p : Position) (text : List Char) :
    (munchString p text).taken ++ (munchString p text).left = '"' :: text := by
  show (stringEnd p _ _).taken ++ (stringEnd p _ _).left = _
  rw [stringEnd_append, quotedBody_append_drop]

/-- Nothing of a text is lost between what is taken and what is left. -/
theorem taken_append_left (p : Position) (c : Char) (text : List Char) :
    (munch p c text).taken ++ (munch p c text).left = c :: text := by
  have hrun : ∀ goesOn : Char → Bool,
      c :: text.takeWhile goesOn ++ text.dropWhile goesOn = c :: text := by
    intro goesOn
    rw [List.cons_append, List.takeWhile_append_dropWhile]
  unfold munch
  split
  · rfl
  · split
    · exact hrun isWordPart
    · split
      · exact hrun Char.isDigit
      · by_cases hquote : c = '"'
        · rw [if_pos hquote, hquote]
          exact munchString_append p text
        · rw [if_neg hquote]
          split
          · exact hrun isOperatorChar
          · rfl

theorem stringEnd_taken_ne_nil (p : Position) (body rest : List Char) :
    (stringEnd p body rest).taken ≠ [] := by
  cases rest with
  | nil => exact List.cons_ne_nil _ _
  | cons c left =>
    by_cases hquote : c = '"'
    · simp [stringEnd, hquote]
    · simp [stringEnd, hquote]

theorem taken_ne_nil (p : Position) (c : Char) (text : List Char) :
    (munch p c text).taken ≠ [] := by
  unfold munch
  split
  · exact List.cons_ne_nil _ _
  · split
    · exact List.cons_ne_nil _ _
    · split
      · exact List.cons_ne_nil _ _
      · split
        · exact stringEnd_taken_ne_nil p _ _
        · split
          · exact List.cons_ne_nil _ _
          · exact List.cons_ne_nil _ _

theorem length_left_le (p : Position) (c : Char) (text : List Char) :
    (munch p c text).left.length ≤ text.length := by
  have hlength := congrArg List.length (taken_append_left p c text)
  have hpos := List.length_pos_iff.mpr (taken_ne_nil p c text)
  simp only [List.length_append, List.length_cons] at hlength
  omega

/-! ## All matches -/

/-- The tokens and the faults of a text that starts at a position. -/
def findings (p : Position) : List Char → List (Except Diagnostic Token)
  | [] => []
  | c :: text =>
    let m := munch p c text
    m.found ++ findings (p.afterAll m.taken) m.left
termination_by text => text.length
decreasing_by
  have hle := length_left_le p c text
  simp only [List.length_cons]
  omega

theorem findings_nil (p : Position) : findings p [] = [] := by
  rw [findings]

theorem findings_cons (p : Position) (c : Char) (text : List Char) :
    findings p (c :: text) =
      (munch p c text).found ++
        findings (p.afterAll (munch p c text).taken) (munch p c text).left := by
  rw [findings]

/-- The tokens of a text and the one that marks its end, or all its faults. -/
def lex (source text : String) : Except (List Diagnostic) (List Token) :=
  match gather (findings (Position.origin source) text.toList) with
  | .ok tokens =>
    .ok (tokens ++ [⟨.endOfInput, "", (Position.origin source).afterAll text.toList⟩])
  | .error diagnostics => .error diagnostics

end SqlForest
