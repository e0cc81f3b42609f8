import SqlForest.Proofs.Token.Offset

/-!
# A scan, step by step

`Scan` feeds a text to the automaton with a cursor.  A character that is used up moves the cursor,
one that is handed back stays where it is and is fed again.  `Scanner.Moves` lists all that a step
can do; what holds of every scan that steps lead to (`Scan.Sound`) is read off that list, and so is
the number of steps (`Scan.Reached.count_le`).

A token in progress is a piece of the text that ends at the cursor, and all of it is in one line.
So the line of the next character is also the line where the token starts.
-/

namespace SqlForest

/-! ## Tokens in progress -/

/-- What a string can hold up to some character: every backslash has taken the character behind it,
with which it need not form an escape sequence, and there is no quote and no end of a line. -/
inductive InString : List Char → Prop
  | nil : InString []
  | plain {body : List Char} {c : Char} (h : InString body) (hquote : c ≠ '"')
      (hbackslash : c ≠ '\\') (hend : ¬ isLineEnd c) : InString (body ++ [c])
  | escaped {body : List Char} {c : Char} (h : InString body) (hend : ¬ isLineEnd c) :
      InString (body ++ ['\\', c])

/-- What the automaton can have taken for a token before it knows where the token ends. -/
inductive Mode.Begun : Mode → List Char → Prop
  | word {c : Char} {more : List Char} (hstart : isWordStart c) (hmore : ∀ d ∈ more, isWordPart d) :
      Begun .word (c :: more)
  | digits {c : Char} {more : List Char} (hstart : c.isDigit) (hmore : ∀ d ∈ more, d.isDigit) :
      Begun .digits (c :: more)
  | quoted {body : List Char} (hbody : InString body) : Begun .quoted ('"' :: body)
  | escape {body : List Char} (hbody : InString body) : Begun .escape ('"' :: (body ++ ['\\']))
  | operator {c : Char} {more : List Char} (hstart : isOperatorChar c)
      (hmore : ∀ d ∈ more, isOperatorChar d) : Begun .operator (c :: more)

theorem InString.newline_not_mem {body : List Char} (h : InString body) : '\n' ∉ body := by
  induction h with
  | nil => simp
  | plain _ _ _ hend ih => exact Scanner.newline_not_mem_append ih (Scanner.ne_newline hend)
  | @escaped body c _ hend ih =>
    have hbackslash : '\n' ∉ body ++ ['\\'] := Scanner.newline_not_mem_append ih (by decide)
    have hboth := Scanner.newline_not_mem_append hbackslash (Scanner.ne_newline hend)
    rwa [List.append_assoc] at hboth

namespace Mode

variable {mode : Mode} {taken : List Char} {d : Char}

/-- A run of characters from classes that the end of a line does not belong to. -/
theorem newline_not_mem_run {starts goesOn : Char → Bool} {c : Char} {more : List Char}
    (hstarts : starts '\n' = false) (hgoesOn : goesOn '\n' = false) (hstart : starts c)
    (hmore : ∀ d ∈ more, goesOn d) : '\n' ∉ c :: more := by
  intro hmem
  rcases List.mem_cons.mp hmem with rfl | hmem
  · rw [hstarts] at hstart
    exact Bool.false_ne_true hstart
  · have hgoes := hmore '\n' hmem
    rw [hgoesOn] at hgoes
    exact Bool.false_ne_true hgoes

/-- A token in progress is in one line. -/
theorem Begun.newline_not_mem (h : mode.Begun taken) : '\n' ∉ taken := by
  cases h with
  | word hstart hmore => exact newline_not_mem_run (by decide) (by decide) hstart hmore
  | digits hstart hmore => exact newline_not_mem_run (by decide) (by decide) hstart hmore
  | quoted hbody => exact Scanner.newline_not_mem_quote hbody.newline_not_mem
  | escape hbody =>
    exact Scanner.newline_not_mem_quote
      (Scanner.newline_not_mem_append hbody.newline_not_mem (by decide))
  | operator hstart hmore => exact newline_not_mem_run (by decide) (by decide) hstart hmore

/-- A string in progress starts with a quote. -/
theorem Begun.exists_body (h : Begun .quoted taken) : ∃ body, taken = '"' :: body := by
  cases h with
  | @quoted body _ => exact ⟨body, rfl⟩

/-! ### What goes on with a token -/

theorem forall_mem_concat {P : Char → Bool} {more : List Char} (hmore : ∀ d ∈ more, P d)
    (hd : P d) : ∀ e ∈ more ++ [d], P e :=
  List.forall_mem_append.mpr ⟨hmore, List.forall_mem_singleton.mpr hd⟩

theorem Begun.word_concat (h : Begun .word taken) (hd : isWordPart d) :
    Begun .word (taken ++ [d]) := by
  cases h with
  | word hstart hmore => exact .word hstart (forall_mem_concat hmore hd)

theorem Begun.digits_concat (h : Begun .digits taken) (hd : d.isDigit) :
    Begun .digits (taken ++ [d]) := by
  cases h with
  | digits hstart hmore => exact .digits hstart (forall_mem_concat hmore hd)

theorem Begun.operator_concat (h : Begun .operator taken) (hd : isOperatorChar d) :
    Begun .operator (taken ++ [d]) := by
  cases h with
  | operator hstart hmore => exact .operator hstart (forall_mem_concat hmore hd)

theorem Begun.quoted_concat (h : Begun .quoted taken) (hquote : d ≠ '"') (hbackslash : d ≠ '\\')
    (hend : ¬ isLineEnd d) : Begun .quoted (taken ++ [d]) := by
  cases h with
  | quoted hbody => exact .quoted (hbody.plain hquote hbackslash hend)

theorem Begun.backslash (h : Begun .quoted taken) : Begun .escape (taken ++ ['\\']) := by
  cases h with
  | quoted hbody => exact .escape hbody

theorem Begun.escape_concat (h : Begun .escape taken) (hend : ¬ isLineEnd d) :
    Begun .quoted (taken ++ [d]) := by
  cases h with
  | escape hbody =>
    rw [List.cons_append, List.append_assoc]
    exact .quoted (hbody.escaped hend)

end Mode

/-! ## What a step can do -/

namespace Scanner

/-- The other scanner is at the same place, inside of the same token. -/
structure SamePlace (s t : Scanner) : Prop where
  position : t.position = s.position
  startColumn : t.startColumn = s.startColumn
  pending : t.pending = s.pending

theorem SamePlace.startPosition {s t : Scanner} (h : s.SamePlace t) :
    t.startPosition = s.startPosition := by
  have hsource : t.source = s.source := congrArg Position.source h.position
  have hline : t.line = s.line := congrArg Position.line h.position
  unfold Scanner.startPosition
  rw [hsource, hline, h.startColumn]

theorem samePlace_finishWord (s : Scanner) : s.SamePlace (s.finishWord.enter .idle) := by
  unfold finishWord
  split
  · exact ⟨rfl, rfl, rfl⟩
  · exact ⟨rfl, rfl, rfl⟩

theorem samePlace_finishDigits (s : Scanner) : s.SamePlace (s.finishDigits.enter .idle) := by
  unfold finishDigits
  split
  · exact ⟨rfl, rfl, rfl⟩
  · exact ⟨rfl, rfl, rfl⟩

theorem samePlace_finishOperator (s : Scanner) :
    s.SamePlace (s.finishOperator.enter .idle) := by
  unfold finishOperator
  split
  · exact ⟨rfl, rfl, rfl⟩
  · exact ⟨rfl, rfl, rfl⟩

/-- All that a step can do with a character. -/
inductive Moves (s : Scanner) (c : Char) : Step → Prop
  /-- A line ends between tokens. -/
  | newline (hmode : s.mode = .idle) (hc : c = '\n') : Moves s c (.consumed s.begin.advanceLine)
  /-- A character between tokens is passed over, is a token, or is none. -/
  | passes {t : Scanner} (hmode : s.mode = .idle) (hc : c ≠ '\n') (ht : t.mode = .idle)
      (hplace : (s.begin.advance c).SamePlace t) : Moves s c (.consumed t)
  /-- A token begins. -/
  | begins {t : Scanner} (hmode : s.mode = .idle) (ht : t.mode.Begun [c])
      (hplace : (s.begin.advance c).SamePlace t) : Moves s c (.consumed t)
  /-- A token goes on. -/
  | goesOn {t : Scanner} (hmode : s.mode ≠ .idle)
      (ht : ∀ taken, s.mode.Begun taken → t.mode.Begun (taken ++ [c]))
      (hplace : (s.advance c).SamePlace t) : Moves s c (.consumed t)
  /-- A string is closed. -/
  | closes (hmode : s.mode = .quoted) (hc : c = '"') :
      Moves s c (.consumed ((s.advance c).finishQuoted.enter .idle))
  /-- A token ends, or is given up, in front of the character. -/
  | handsBack {t : Scanner} (hmode : s.mode ≠ .idle) (ht : t.mode = .idle)
      (hplace : s.SamePlace t) : Moves s c (.handedBack t)

theorem moves_takeIdle {s : Scanner} (hmode : s.mode = .idle) (c : Char) :
    s.Moves c (.consumed (s.takeIdle c)) := by
  have hbegins : ∀ mode : Mode, mode.Begun [c] →
      s.Moves c (.consumed ((s.begin.advance c).enter mode)) :=
    fun mode hbegun => .begins hmode hbegun ⟨rfl, rfl, rfl⟩
  have hnone : ∀ {P : Char → Bool}, ∀ d ∈ ([] : List Char), P d := by simp
  unfold takeIdle
  by_cases hnewline : c = '\n'
  · rw [if_pos hnewline]
    exact .newline hmode hnewline
  · rw [if_neg hnewline]
    split
    · exact .passes hmode hnewline hmode ⟨rfl, rfl, rfl⟩
    · split
      · exact hbegins .word (.word ‹_› hnone)
      · split
        · exact hbegins .digits (.digits ‹_› hnone)
        · split
          · rename_i hquote
            exact hbegins .quoted (hquote ▸ .quoted .nil)
          · split
            · exact hbegins .operator (.operator ‹_› hnone)
            · split
              · exact .passes hmode hnewline hmode ⟨rfl, rfl, rfl⟩
              · exact .passes hmode hnewline hmode ⟨rfl, rfl, rfl⟩

theorem moves_goesOn {s t : Scanner} {c : Char} {mode later : Mode} (hs : s.mode = mode)
    (ht : t.mode = later) (hmode : mode ≠ .idle)
    (hgoes : ∀ {taken}, mode.Begun taken → later.Begun (taken ++ [c]))
    (hplace : (s.advance c).SamePlace t) : s.Moves c (.consumed t) := by
  subst hs ht
  exact .goesOn hmode (fun _ => hgoes) hplace

theorem moves_step (s : Scanner) (c : Char) : s.Moves c (s.step c) := by
  have hgiven : ∀ fault, s.SamePlace ((s.rejectChar fault).enter .idle) :=
    fun fault => ⟨rfl, rfl, rfl⟩
  unfold step
  cases hmode : s.mode with
  | idle => exact moves_takeIdle hmode c
  | word =>
    have hne : s.mode ≠ .idle := by simp [hmode]
    dsimp only
    split
    · exact moves_goesOn hmode hmode (by decide) (·.word_concat ‹_›) ⟨rfl, rfl, rfl⟩
    · exact .handsBack hne rfl (samePlace_finishWord s)
  | digits =>
    have hne : s.mode ≠ .idle := by simp [hmode]
    dsimp only
    split
    · exact moves_goesOn hmode hmode (by decide) (·.digits_concat ‹_›) ⟨rfl, rfl, rfl⟩
    · split
      · exact .handsBack hne rfl (hgiven .lumpedNumber)
      · exact .handsBack hne rfl (samePlace_finishDigits s)
  | quoted =>
    have hne : s.mode ≠ .idle := by simp [hmode]
    dsimp only
    by_cases hquote : c = '"'
    · rw [if_pos hquote]
      exact .closes hmode hquote
    · rw [if_neg hquote]
      by_cases hbackslash : c = '\\'
      · rw [if_pos hbackslash]
        refine moves_goesOn hmode rfl (by decide) ?_ ⟨rfl, rfl, rfl⟩
        rw [hbackslash]
        exact Mode.Begun.backslash
      · rw [if_neg hbackslash]
        split
        · exact .handsBack hne rfl (hgiven .multilineString)
        · exact moves_goesOn hmode hmode (by decide) (·.quoted_concat hquote hbackslash ‹_›)
            ⟨rfl, rfl, rfl⟩
  | escape =>
    have hne : s.mode ≠ .idle := by simp [hmode]
    dsimp only
    split
    · exact .handsBack hne rfl (hgiven .multilineString)
    · split
      · exact moves_goesOn hmode rfl (by decide) (·.escape_concat ‹_›) ⟨rfl, rfl, rfl⟩
      · exact moves_goesOn hmode rfl (by decide) (·.escape_concat ‹_›) ⟨rfl, rfl, rfl⟩
  | operator =>
    have hne : s.mode ≠ .idle := by simp [hmode]
    dsimp only
    split
    · exact moves_goesOn hmode hmode (by decide) (·.operator_concat ‹_›) ⟨rfl, rfl, rfl⟩
    · exact .handsBack hne rfl (samePlace_finishOperator s)

end Scanner

/-! ## Positions -/

theorem Position.atOffset_succ (source : String) {text : List Char} {offset : Nat} {c : Char}
    (h : text[offset]? = some c) :
    atOffset source text (offset + 1) = (atOffset source text offset).after c := by
  rw [← afterAll_take, ← afterAll_take, List.take_add_one, h, afterAll_append]
  rfl

theorem Scanner.position_advance (s : Scanner) {c : Char} (hc : c ≠ '\n') :
    (s.advance c).position = s.position.after c := by
  rw [Position.after, if_neg hc]
  rfl

/-! ## Scans -/

/-- A scan of a text.  Its cursor is the offset of the next character; the scanner has begun its
token at `tokenStart`. -/
structure Scan where
  text : List Char
  pos : Nat
  tokenStart : Nat
  scanner : Scanner

namespace Scan

/-- A scan at the start of a text. -/
def start (source text : String) : Scan :=
  ⟨text.toList, 0, 0, Scanner.start source⟩

/-- The character at the cursor. -/
def next? (s : Scan) : Option Char :=
  s.text[s.pos]?

/-- The characters from the start of the token up to the cursor. -/
def taken (s : Scan) : List Char :=
  s.text.extract s.tokenStart s.pos

/-- Where the next character finds the token begun: a scanner that waits begins one there. -/
def begunAt (s : Scan) : Nat :=
  if s.scanner.mode = .idle then s.pos else s.tokenStart

/-- Feeds the next character to the automaton, if there is one. -/
def step? (s : Scan) : Option Scan :=
  s.next?.map fun c =>
    match s.scanner.step c with
    | .consumed next => ⟨s.text, s.pos + 1, s.begunAt, next⟩
    | .handedBack next => ⟨s.text, s.pos, s.begunAt, next⟩

/-- The scan that so many steps lead to. -/
inductive Reached (source text : String) : Nat → Scan → Prop
  | start : Reached source text 0 (start source text)
  | step {count : Nat} {s t : Scan} (h : Reached source text count s) (hstep : s.step? = some t) :
      Reached source text (count + 1) t

/-- The scan is inside of a token, which is what it has taken since the token began. -/
structure InToken (source : String) (s : Scan) : Prop where
  begun : s.scanner.mode.Begun s.taken
  lexeme : s.scanner.lexeme = s.taken
  column : s.scanner.column = min (s.scanner.startColumn + s.taken.length) Position.lastCount
  startPosition : s.scanner.startPosition = Position.atOffset source s.text s.tokenStart

/-- What every step keeps. -/
structure Sound (source text : String) (s : Scan) : Prop where
  text_eq : s.text = text.toList
  tokenStart_le : s.tokenStart ≤ s.pos
  pos_le : s.pos ≤ s.text.length
  position : s.scanner.position = Position.atOffset source s.text s.pos
  inToken : s.scanner.mode ≠ .idle → s.InToken source
  run_eq : s.scanner.run (s.text.drop s.pos) = Scanner.ofText source text

variable {source text : String} {s t : Scan}

/-! ### One step -/

theorem step?_of_consumed {c : Char} {next : Scanner} (hc : s.next? = some c)
    (h : s.scanner.step c = .consumed next) :
    s.step? = some ⟨s.text, s.pos + 1, s.begunAt, next⟩ := by
  rw [step?, hc, Option.map_some, h]

/-- A scan that waits uses up the next character. -/
theorem exists_step?_of_idle {c : Char} (hidle : s.scanner.mode = .idle) (hc : s.next? = some c) :
    ∃ t, s.step? = some t ∧ t.pos = s.pos + 1 := by
  have htake : s.scanner.step c = .consumed (s.scanner.takeIdle c) := by
    unfold Scanner.step
    rw [hidle]
  exact ⟨_, step?_of_consumed hc htake, rfl⟩

/-- A step uses up a character, or it gives a token up at the cursor and the next step uses the
character up. -/
theorem step?_cases (h : s.step? = some t) :
    t.pos = s.pos + 1 ∨
      t.pos = s.pos ∧ s.scanner.mode ≠ .idle ∧ t.scanner.mode = .idle ∧
        ∃ u, t.step? = some u ∧ u.pos = t.pos + 1 := by
  obtain ⟨c, hc, rfl⟩ := Option.map_eq_some_iff.mp h
  have hmoves := s.scanner.moves_step c
  generalize s.scanner.step c = step at hmoves
  cases hmoves with
  | handsBack hmode ht _ => exact .inr ⟨rfl, hmode, ht, exists_step?_of_idle ht hc⟩
  | _ => exact .inl rfl

/-! ### What a step keeps -/

/-- The text from the cursor on starts with the next character. -/
theorem drop_eq_cons {c : Char} (hc : s.next? = some c) :
    s.text.drop s.pos = c :: s.text.drop (s.pos + 1) := by
  obtain ⟨hlt, hget⟩ := List.getElem?_eq_some_iff.mp hc
  rw [List.drop_eq_getElem_cons hlt, hget]

/-- The character at the cursor is the next one to join the token. -/
theorem extract_succ {l : List Char} {start stop : Nat} {c : Char} (hle : start ≤ stop)
    (hc : l[stop]? = some c) : l.extract start (stop + 1) = l.extract start stop ++ [c] := by
  have hget : (l.drop start)[stop - start]? = some c := by
    rw [List.getElem?_drop, Nat.add_sub_of_le hle]
    exact hc
  rw [List.extract_eq_take_drop, List.extract_eq_take_drop, Nat.succ_sub hle, List.take_add_one,
    hget]
  rfl

/-- Between tokens the cursor is where the next token begins. -/
theorem begunAt_of_idle (h : s.scanner.mode = .idle) : s.begunAt = s.pos :=
  if_pos h

theorem begunAt_of_ne_idle (h : s.scanner.mode ≠ .idle) : s.begunAt = s.tokenStart :=
  if_neg h

section Consumed

variable {c : Char} {next : Scanner}

/-- A token that begins at the cursor holds one character. -/
theorem Sound.begins (h : s.Sound source text) (hc : s.next? = some c)
    (hmode : s.scanner.mode = .idle) (hbegun : next.mode.Begun [c])
    (hplace : (s.scanner.begin.advance c).SamePlace next) :
    InToken source ⟨s.text, s.pos + 1, s.begunAt, next⟩ := by
  have htaken : s.text.extract s.pos (s.pos + 1) = [c] := by
    rw [extract_succ (Nat.le_refl _) hc, List.extract_eq_take_drop, Nat.sub_self]
    rfl
  have hlexeme : next.lexeme = [c] := by
    rw [Scanner.lexeme, hplace.pending]
    rfl
  have hcolumn : next.column = Position.countAfter s.scanner.column :=
    congrArg Position.column hplace.position
  rw [begunAt_of_idle hmode]
  refine ⟨?_, ?_, ?_, ?_⟩
  · rwa [taken, htaken]
  · rw [taken, htaken, hlexeme]
  · rw [taken, htaken, hcolumn, hplace.startColumn]
    rfl
  · rw [hplace.startPosition, ← h.position]
    rfl

/-- A token that goes on holds one character more. -/
theorem InToken.goesOn (h : s.InToken source) (hle : s.tokenStart ≤ s.pos)
    (hc : s.next? = some c) (hmode : s.scanner.mode ≠ .idle)
    (hbegun : next.mode.Begun (s.taken ++ [c]))
    (hplace : (s.scanner.advance c).SamePlace next) :
    InToken source ⟨s.text, s.pos + 1, s.begunAt, next⟩ := by
  have htaken : s.text.extract s.tokenStart (s.pos + 1) = s.taken ++ [c] := extract_succ hle hc
  have hlexeme : next.lexeme = s.taken ++ [c] := by
    rw [Scanner.lexeme, hplace.pending, ← h.lexeme]
    exact List.reverse_cons
  have hcolumn : next.column = Position.countAfter s.scanner.column :=
    congrArg Position.column hplace.position
  rw [begunAt_of_ne_idle hmode]
  refine ⟨?_, ?_, ?_, ?_⟩
  · rwa [taken, htaken]
  · rw [taken, htaken, hlexeme]
  · rw [taken, htaken, hcolumn, hplace.startColumn, h.column, List.length_append,
      List.length_singleton]
    show Position.countAfter _ = min (s.scanner.startColumn + _) _
    unfold Position.countAfter
    omega
  · rw [hplace.startPosition, ← h.startPosition]
    rfl

theorem Sound.consumed (h : s.Sound source text) (hc : s.next? = some c)
    (hstep : s.scanner.step c = .consumed next)
    (hposition : next.position = s.scanner.position.after c)
    (hin : next.mode ≠ .idle → InToken source ⟨s.text, s.pos + 1, s.begunAt, next⟩) :
    Sound source text ⟨s.text, s.pos + 1, s.begunAt, next⟩ where
  text_eq := h.text_eq
  tokenStart_le := by
    have hle := h.tokenStart_le
    show s.begunAt ≤ s.pos + 1
    unfold begunAt
    split
    · omega
    · omega
  pos_le := (List.getElem?_eq_some_iff.mp hc).1
  position := by
    rw [hposition, h.position, Position.atOffset_succ source hc]
  inToken := hin
  run_eq := by
    rw [← h.run_eq, drop_eq_cons hc, Scanner.run_cons, Scanner.feed_of_consumed hstep]

theorem Sound.handedBack (h : s.Sound source text) (hc : s.next? = some c)
    (hstep : s.scanner.step c = .handedBack next) (hmode : s.scanner.mode ≠ .idle)
    (hidle : next.mode = .idle) (hplace : s.scanner.SamePlace next) :
    Sound source text ⟨s.text, s.pos, s.begunAt, next⟩ where
  text_eq := h.text_eq
  tokenStart_le := by
    rw [begunAt_of_ne_idle hmode]
    exact h.tokenStart_le
  pos_le := h.pos_le
  position := hplace.position.trans h.position
  inToken hne := absurd hidle hne
  run_eq := by
    rw [← h.run_eq, drop_eq_cons hc]
    refine (Scanner.run_of_handedBack hidle ?_ ?_).symm
    · exact fun hnil => absurd hnil (List.cons_ne_nil _ _)
    intro d rest hd
    rw [← (List.cons.inj hd).1]
    exact hstep

end Consumed

theorem Sound.step (h : s.Sound source text) (hstep : s.step? = some t) :
    t.Sound source text := by
  obtain ⟨c, hc, rfl⟩ := Option.map_eq_some_iff.mp hstep
  have hmoves := s.scanner.moves_step c
  have hadvance : ∀ {next : Scanner}, c ≠ '\n' → (s.scanner.advance c).position = next.position →
      next.position = s.scanner.position.after c := by
    intro next hnewline hposition
    rw [← hposition, s.scanner.position_advance hnewline]
  generalize hs : s.scanner.step c = step at hmoves
  cases hmoves with
  | newline hmode hnewline =>
    refine h.consumed hc hs ?_ (absurd hmode)
    rw [Position.after, if_pos hnewline]
    rfl
  | passes hmode hnewline ht hplace =>
    exact h.consumed hc hs (hadvance hnewline hplace.position.symm) (absurd ht)
  | begins hmode hbegun hplace =>
    have hnewline : c ≠ '\n' := fun heq => hbegun.newline_not_mem (by simp [heq])
    exact h.consumed hc hs (hadvance hnewline hplace.position.symm)
      fun _ => h.begins hc hmode hbegun hplace
  | goesOn hmode hgoes hplace =>
    have hin := h.inToken hmode
    have hbegun := hgoes s.taken hin.begun
    have hnewline : c ≠ '\n' := fun heq => hbegun.newline_not_mem (by simp [heq])
    exact h.consumed hc hs (hadvance hnewline hplace.position.symm)
      fun _ => hin.goesOn h.tokenStart_le hc hmode hbegun hplace
  | closes hmode hquote =>
    have hnewline : c ≠ '\n' := by
      rw [hquote]
      decide
    exact h.consumed hc hs (hadvance hnewline rfl) (absurd rfl)
  | handsBack hmode ht hplace => exact h.handedBack hc hs hmode ht hplace

/-- A quote closes a string: the token is what stands between the two quotes. -/
theorem Sound.closes (h : s.Sound source text) (hmode : s.scanner.mode = .quoted)
    (hquote : s.next? = some '"') :
    ∃ body t, s.step? = some t ∧ t.taken = '"' :: (body ++ ['"']) ∧
      t.scanner.tokens =
        ⟨.string, String.ofList body, s.scanner.startPosition⟩ :: s.scanner.tokens := by
  have hne : s.scanner.mode ≠ .idle := by simp [hmode]
  have hin := h.inToken hne
  have hstep : s.scanner.step '"' =
      .consumed ((s.scanner.advance '"').finishQuoted.enter .idle) := by
    unfold Scanner.step
    rw [hmode]
    rfl
  obtain ⟨body, hbody⟩ := Mode.Begun.exists_body (hmode ▸ hin.begun)
  have htaken : s.text.extract s.tokenStart (s.pos + 1) = '"' :: (body ++ ['"']) := by
    rw [extract_succ h.tokenStart_le hquote, ← taken, hbody]
    rfl
  have hlexeme : (s.scanner.advance '"').lexeme = '"' :: (body ++ ['"']) := by
    have hpending : (s.scanner.advance '"').lexeme = s.scanner.lexeme ++ ['"'] :=
      List.reverse_cons
    rw [hpending, hin.lexeme, hbody]
    rfl
  refine ⟨body, _, step?_of_consumed hquote hstep, ?_, ?_⟩
  · rw [begunAt_of_ne_idle hne]
    exact htaken
  · have hpushed : ((s.scanner.advance '"').finishQuoted.enter .idle).tokens =
        ⟨.string, String.ofList (s.scanner.advance '"').lexeme.tail.dropLast,
          s.scanner.startPosition⟩ :: s.scanner.tokens := rfl
    rw [hpushed, hlexeme, List.tail_cons, List.dropLast_concat]

/-! ### All steps -/

theorem sound_start (source text : String) : (start source text).Sound source text where
  text_eq := rfl
  tokenStart_le := Nat.le_refl 0
  pos_le := Nat.zero_le _
  position := by
    rw [← Position.afterAll_take]
    rfl
  inToken hne := absurd rfl hne
  run_eq := rfl

theorem Reached.sound {count : Nat} (h : Reached source text count s) : s.Sound source text := by
  induction h with
  | start => exact sound_start source text
  | step _ hstep ih => exact ih.step hstep

/-- Each character costs two steps at most: it is used up by one of them, and the other one has
given a token up in front of it.  A token in progress has not been given up yet. -/
theorem Reached.count_le {count : Nat} (h : Reached source text count s) :
    count + (if s.scanner.mode = .idle then 0 else 1) ≤ 2 * s.pos := by
  induction h with
  | start => exact Nat.le_refl 0
  | step _ hstep ih =>
    rcases step?_cases hstep with hpos | ⟨hpos, hmode, hidle, -⟩
    · rw [hpos]
      split
      · omega
      · omega
    · rw [if_neg hmode] at ih
      rw [hpos, if_pos hidle]
      omega

/-- A scan goes on as long as there are characters. -/
theorem step?_eq_none (hover : s.step? = none) : s.text.length ≤ s.pos := by
  have hnone : s.next? = none := by
    rwa [step?, Option.map_eq_none_iff] at hover
  exact List.getElem?_eq_none_iff.mp hnone

/-- So many steps can be taken, or the scan is over before. -/
theorem exists_reached (source text : String) (count : Nat) :
    (∃ s, Reached source text count s) ∨
      ∃ fewer s, fewer < count ∧ Reached source text fewer s ∧ s.step? = none := by
  induction count with
  | zero => exact .inl ⟨_, .start⟩
  | succ count ih =>
    rcases ih with ⟨s, hs⟩ | ⟨fewer, s, hlt, hs, hover⟩
    · cases hstep : s.step? with
      | some t => exact .inl ⟨t, hs.step hstep⟩
      | none => exact .inr ⟨count, s, Nat.lt_succ_self count, hs, hstep⟩
    · exact .inr ⟨fewer, s, Nat.lt_succ_of_lt hlt, hs, hover⟩

/-- A scan comes to the end of its text, where only the token in progress is left to be finished. -/
theorem exists_reached_end (source text : String) :
    ∃ count s, count ≤ 2 * text.toList.length ∧ Reached source text count s ∧
      s.pos = text.toList.length ∧ s.step? = none ∧
      s.scanner.finish = Scanner.ofText source text := by
  have hbound : ∀ {count : Nat} {s : Scan}, Reached source text count s →
      count ≤ 2 * text.toList.length := by
    intro count s hs
    have hcount := hs.count_le
    have hpos := hs.sound.pos_le
    rw [hs.sound.text_eq] at hpos
    omega
  obtain ⟨s, hs⟩ | ⟨count, s, -, hs, hover⟩ :=
    exists_reached source text (2 * text.toList.length + 1)
  · exact absurd (hbound hs) (by omega)
  have hsound := hs.sound
  have hpos : s.pos = s.text.length := Nat.le_antisymm hsound.pos_le (step?_eq_none hover)
  have hend : s.text.drop s.pos = [] := by rw [hpos, List.drop_length]
  have hrun := hsound.run_eq
  rw [hend] at hrun
  refine ⟨count, s, hbound hs, hs, ?_, hover, hrun⟩
  rw [hpos, hsound.text_eq]

/-- In every scan that steps lead to, the token begins at or before the cursor, and the cursor is in
the text.  A token in progress is legal so far, in one line and counted by the column, so its line
is the current one and a closing quote is the second quote of its token.

A step uses up one character, or gives up a token in front of a character that the next step uses
up.  So twice as many steps as there are characters are enough to come to the end of the text. -/
theorem tokens_in_line_and_progress (source text : String) :
    (∀ count s, Reached source text count s →
      s.tokenStart ≤ s.pos ∧ s.pos ≤ text.toList.length ∧
      (s.scanner.mode ≠ .idle →
        '\n' ∉ s.taken ∧ s.scanner.mode.Begun s.taken ∧ s.scanner.lexeme = s.taken ∧
        s.scanner.column = min (s.scanner.startColumn + s.taken.length) Position.lastCount ∧
        s.scanner.startPosition = Position.atOffset source text.toList s.tokenStart ∧
        s.scanner.position = Position.atOffset source text.toList s.pos) ∧
      (s.scanner.mode = .quoted → s.next? = some '"' →
        ∃ body t, s.step? = some t ∧ t.taken = '"' :: (body ++ ['"']) ∧
          t.scanner.tokens =
            ⟨.string, String.ofList body, s.scanner.startPosition⟩ :: s.scanner.tokens) ∧
      (∀ t, s.step? = some t →
        t.pos = s.pos + 1 ∨
          t.pos = s.pos ∧ s.scanner.mode ≠ .idle ∧ t.scanner.mode = .idle ∧
            ∃ u, t.step? = some u ∧ u.pos = t.pos + 1) ∧
      count ≤ 2 * s.pos) ∧
    ∃ count s, count ≤ 2 * text.toList.length ∧ Reached source text count s ∧
      s.pos = text.toList.length ∧ s.step? = none ∧
      s.scanner.finish = Scanner.ofText source text := by
  refine ⟨?_, exists_reached_end source text⟩
  intro count s hs
  have hsound := hs.sound
  refine ⟨hsound.tokenStart_le, ?_, ?_, hsound.closes, fun t => step?_cases, ?_⟩
  · rw [← hsound.text_eq]
    exact hsound.pos_le
  · intro hmode
    have hin := hsound.inToken hmode
    rw [← hsound.text_eq]
    exact ⟨hin.begun.newline_not_mem, hin.begun, hin.lexeme, hin.column, hin.startPosition,
      hsound.position⟩
  · exact Nat.le_trans (Nat.le_add_right _ _) hs.count_le

end Scan

end SqlForest
