import Mathlib.Data.List.Induction
import SqlForest.Proofs.Token.Motion

/-!
# Offsets in a text

A position counts lines and columns, and stops counting at some point; an offset counts characters.
`Position.atOffset` says what position belongs to an offset, and `TokenStream.ofText_located` that
every token and every diagnostic stands at an offset of the text, which gives its position.

The tokens of a text are written at places that follow one another (`Laid`), and between the places
there are blank characters only.  The offsets of diagnostics never go back, and only a pair of
faults shares one (`Precedes`).  Both facts are proved match by match, with offsets that count from
the match, and carried to the whole text by induction.
-/

namespace SqlForest

/-! ## The position at an offset -/

namespace Position

/-- The position at an offset of a text: its line is counted by the line ends in front of it, its
column by the characters behind the last of them. -/
def atOffset (source : String) (text : List Char) (offset : Nat) : Position where
  source := source
  line := min (1 + (text.take offset).count '\n') lastCount
  column := min (1 + ((text.take offset).reverse.takeWhile (· ≠ '\n')).length) lastCount

/-- Columns are counted from the last line end. -/
theorem column_afterAll (source : String) (text : List Char) :
    ((origin source).afterAll text).column =
      min (1 + (text.reverse.takeWhile (· ≠ '\n')).length) lastCount := by
  induction text using List.reverseRecOn with
  | nil => rfl
  | append_singleton text c ih =>
    rw [afterAll_append, List.reverse_append, List.reverse_singleton, List.singleton_append]
    show (((origin source).afterAll text).after c).column = _
    by_cases hc : c = '\n'
    · have hnone : (c :: text.reverse).takeWhile (· ≠ '\n') = [] := by
        rw [List.takeWhile_cons, if_neg (by simpa using hc)]
      rw [after, if_pos hc, hnone]
      rfl
    · have hmore : (c :: text.reverse).takeWhile (· ≠ '\n') =
          c :: text.reverse.takeWhile (· ≠ '\n') := by
        rw [List.takeWhile_cons, if_pos (by simpa using hc)]
      rw [after, if_neg hc, hmore, List.length_cons]
      show countAfter ((origin source).afterAll text).column = _
      rw [ih, countAfter]
      omega

theorem afterAll_take (source : String) (text : List Char) (offset : Nat) :
    (origin source).afterAll (text.take offset) = atOffset source text offset := by
  have hfirst : (origin source).line ≤ lastCount := Nat.le_add_left 1 _
  have hsource := source_afterAll (origin source) (text.take offset)
  have hline := line_afterAll hfirst (text.take offset)
  have hcolumn := column_afterAll source (text.take offset)
  cases hp : (origin source).afterAll (text.take offset) with
  | mk s l c =>
    rw [hp] at hsource hline hcolumn
    simp only at hsource hline hcolumn
    rw [hsource, hline, hcolumn]
    rfl

end Position

/-! ## How tokens are written -/

/-- The token is written with these characters. -/
def Token.WrittenAs (t : Token) (written : List Char) : Prop :=
  match t.kind with
  | .keyword => Text.inCapitals (String.ofList written) = t.lexeme
  | .string => written = '"' :: (t.lexeme.toList ++ ['"'])
  | _ => written = t.lexeme.toList

/-- A token, the characters that it is written with, and the offset of the first of them. -/
structure Place where
  start : Nat
  written : List Char
  token : Token

namespace Place

/-- The offset behind the token. -/
def stop (x : Place) : Nat :=
  x.start + x.written.length

/-- The same place, in a text with some more characters in front. -/
def shift (count : Nat) (x : Place) : Place :=
  { x with start := count + x.start }

end Place

/-- The tokens are at these places of a text that starts at a position, and between them there are
blank characters only. -/
structure Laid (p : Position) (text : List Char) (places : List Place) : Prop where
  position : ∀ x ∈ places, x.token.position = p.afterAll (text.take x.start)
  written : ∀ x ∈ places, x.written ≠ [] ∧ x.written <+: text.drop x.start ∧
    x.token.WrittenAs x.written
  inOrder : places.Pairwise fun x y => x.stop ≤ y.start
  blank : ∀ i c, text[i]? = some c →
    Text.isBlank c ∨ ∃ x ∈ places, x.start ≤ i ∧ i < x.stop

theorem laid_nil (p : Position) : Laid p [] [] where
  position x hx := by simp at hx
  written x hx := by simp at hx
  inOrder := List.Pairwise.nil
  blank i c hc := by simp at hc

/-- A place behind some characters. -/
theorem Laid.shift {p : Position} {front text : List Char} {places : List Place}
    (h : Laid (p.afterAll front) text places) {x : Place}
    (hx : x ∈ places.map (Place.shift front.length)) :
    front.length ≤ x.start ∧ x.token.position = p.afterAll ((front ++ text).take x.start) ∧
      x.written ≠ [] ∧ x.written <+: (front ++ text).drop x.start ∧
      x.token.WrittenAs x.written := by
  obtain ⟨y, hy, rfl⟩ := List.mem_map.mp hx
  obtain ⟨hne, hprefix, hwritten⟩ := h.written y hy
  refine ⟨Nat.le_add_right _ _, ?_, hne, ?_, hwritten⟩
  · show y.token.position = p.afterAll ((front ++ text).take (front.length + y.start))
    rw [List.take_length_add_append, Position.afterAll_append]
    exact h.position y hy
  · show y.written <+: (front ++ text).drop (front.length + y.start)
    rw [List.drop_length_add_append]
    exact hprefix

theorem pairwise_shift {places : List Place} (count : Nat)
    (h : places.Pairwise fun x y => x.stop ≤ y.start) :
    (places.map (Place.shift count)).Pairwise fun x y => x.stop ≤ y.start := by
  refine List.pairwise_map.mpr (h.imp ?_)
  intro x y hxy
  simp only [Place.stop, Place.shift] at hxy ⊢
  omega

theorem blank_shift {front text : List Char} {places : List Place} {p : Position}
    (h : Laid p text places) {i : Nat} {c : Char} (hi : front.length ≤ i)
    (hc : (front ++ text)[i]? = some c) :
    Text.isBlank c ∨ ∃ x ∈ places.map (Place.shift front.length), x.start ≤ i ∧ i < x.stop := by
  rw [List.getElem?_append_right hi] at hc
  rcases h.blank _ c hc with hblank | ⟨x, hx, hstart, hstop⟩
  · exact Or.inl hblank
  · refine Or.inr ⟨x.shift front.length, List.mem_map_of_mem hx, ?_, ?_⟩
    · simp only [Place.shift]
      omega
    · simp only [Place.stop, Place.shift] at hstop ⊢
      omega

/-- A blank character goes in front. -/
theorem Laid.cons_blank {p : Position} {c : Char} {text : List Char} {places : List Place}
    (hc : Text.isBlank c) (h : Laid (p.after c) text places) :
    Laid p (c :: text) (places.map (Place.shift 1)) := by
  have hfront : Laid (p.afterAll [c]) text places := h
  refine ⟨?_, ?_, pairwise_shift 1 h.inOrder, ?_⟩
  · intro x hx
    exact (hfront.shift hx).2.1
  · intro x hx
    exact (hfront.shift hx).2.2
  · intro i d hd
    cases i with
    | zero =>
      rw [← Option.some.inj hd]
      exact Or.inl hc
    | succ i =>
      have hmore : ([c] ++ text)[i + 1]? = some d := hd
      exact blank_shift h (Nat.le_add_left 1 i) hmore

/-- A token goes in front. -/
theorem Laid.cons_token {p : Position} {t : Token} {written text : List Char}
    {places : List Place} (hne : written ≠ []) (hposition : t.position = p)
    (hwritten : t.WrittenAs written) (h : Laid (p.afterAll written) text places) :
    Laid p (written ++ text) (⟨0, written, t⟩ :: places.map (Place.shift written.length)) := by
  refine ⟨?_, ?_, ?_, ?_⟩
  · intro x hx
    rcases List.mem_cons.mp hx with rfl | hx
    · exact hposition
    · exact (h.shift hx).2.1
  · intro x hx
    rcases List.mem_cons.mp hx with rfl | hx
    · exact ⟨hne, List.prefix_append _ _, hwritten⟩
    · exact (h.shift hx).2.2
  · refine List.pairwise_cons.mpr ⟨?_, pairwise_shift _ h.inOrder⟩
    intro x hx
    simpa [Place.stop] using (h.shift hx).1
  · intro i c hc
    by_cases hi : i < written.length
    · exact Or.inr ⟨_, List.mem_cons_self, Nat.zero_le i, by simpa [Place.stop] using hi⟩
    · rcases blank_shift h (Nat.le_of_not_lt hi) hc with hblank | ⟨x, hx, hin⟩
      · exact Or.inl hblank
      · exact Or.inr ⟨x, List.mem_cons_of_mem _ hx, hin⟩

/-! ## The tokens of a text -/

/-- A match is of one of six shapes. -/
theorem munch_cases {P : Munch → Prop} {p : Position} {c : Char} {text : List Char}
    (blank : Text.isBlank c → P ⟨[], [c], text⟩)
    (word : ¬ Text.isBlank c → isWordStart c →
      P ⟨[.ok (wordToken p (c :: text.takeWhile isWordPart))], c :: text.takeWhile isWordPart,
        text.dropWhile isWordPart⟩)
    (digits : ¬ Text.isBlank c → c.isDigit →
      P ⟨[digitsFinding p (c :: text.takeWhile Char.isDigit) (text.dropWhile Char.isDigit)],
        c :: text.takeWhile Char.isDigit, text.dropWhile Char.isDigit⟩)
    (string : c = '"' → P (munchString p text))
    (operator : ¬ Text.isBlank c → isOperatorChar c →
      P ⟨[operatorFinding p (c :: text.takeWhile isOperatorChar)],
        c :: text.takeWhile isOperatorChar, text.dropWhile isOperatorChar⟩)
    (single : ¬ Text.isBlank c → c ≠ '"' → P ⟨[singleFinding p c], [c], text⟩) :
    P (munch p c text) := by
  unfold munch
  by_cases hblank : Text.isBlank c
  · rw [if_pos hblank]
    exact blank hblank
  · rw [if_neg hblank]
    split
    · exact word hblank ‹_›
    · split
      · exact digits hblank ‹_›
      · split
        · exact string ‹_›
        · split
          · exact operator hblank ‹_›
          · exact single hblank ‹_›

/-- The token stands at the position and is written with the characters. -/
structure Token.StandsAt (t : Token) (p : Position) (written : List Char) : Prop where
  position : t.position = p
  written : t.WrittenAs written

theorem standsAt_lexeme {kind : TokenKind} (hkeyword : kind ≠ .keyword) (hstring : kind ≠ .string)
    (p : Position) (lexeme : List Char) :
    Token.StandsAt ⟨kind, String.ofList lexeme, p⟩ p lexeme := by
  refine ⟨rfl, ?_⟩
  cases kind with
  | keyword => exact absurd rfl hkeyword
  | string => exact absurd rfl hstring
  | _ => exact String.toList_ofList.symm

/-- A keyword is found by its capitals. -/
theorem inCapitals_of_ofWord? {word : String} {keyword : Keyword}
    (h : Keyword.ofWord? word = some keyword) : Text.inCapitals word = keyword.spelling := by
  have hfound := List.find?_some h
  exact (of_decide_eq_true hfound).symm

theorem standsAt_wordToken (p : Position) (word : List Char) :
    (wordToken p word).StandsAt p word := by
  unfold wordToken
  cases h : Keyword.ofWord? (String.ofList word) with
  | some keyword => exact ⟨rfl, inCapitals_of_ofWord? h⟩
  | none => exact standsAt_lexeme (by decide) (by decide) p word

theorem standsAt_digits {p : Position} {digits left : List Char} {t : Token}
    (h : digitsFinding p digits left = .ok t) : t.StandsAt p digits := by
  unfold digitsFinding at h
  split at h
  · simp at h
  · split at h
    · rw [← Except.ok.inj h]
      exact standsAt_lexeme (by decide) (by decide) p digits
    · simp at h

theorem standsAt_operator {p : Position} {run : List Char} {t : Token}
    (h : operatorFinding p run = .ok t) : t.StandsAt p run := by
  unfold operatorFinding at h
  split at h
  · rw [← Except.ok.inj h]
    exact standsAt_lexeme (by decide) (by decide) p run
  · simp at h

theorem kind_of_punctuation? {c : Char} {kind : TokenKind} (h : punctuation? c = some kind) :
    kind ≠ .keyword ∧ kind ≠ .string := by
  unfold punctuation? at h
  split at h
  · cases h
    decide
  · cases h
    decide
  · cases h
    decide
  · cases h
    decide
  · cases h
    decide
  · simp at h

theorem standsAt_single {p : Position} {c : Char} {t : Token}
    (h : singleFinding p c = .ok t) : t.StandsAt p [c] := by
  unfold singleFinding at h
  cases hc : punctuation? c with
  | none => simp [hc] at h
  | some kind =>
    simp only [hc, Except.ok.injEq] at h
    obtain ⟨hkeyword, hstring⟩ := kind_of_punctuation? hc
    rw [← h]
    exact standsAt_lexeme hkeyword hstring p [c]

theorem standsAt_stringEnd {p : Position} {body rest : List Char} {tokens : List Token}
    (h : (stringEnd p body rest).found = tokens.map .ok) :
    ∃ t, tokens = [t] ∧ t.StandsAt p (stringEnd p body rest).taken := by
  cases rest with
  | nil =>
    obtain ⟨t, _, ht⟩ := List.map_eq_singleton_iff.mp h.symm
    simp at ht
  | cons c left =>
    by_cases hquote : c = '"'
    · rw [stringEnd, if_pos hquote] at h ⊢
      obtain ⟨t, rfl, ht⟩ := List.map_eq_singleton_iff.mp h.symm
      refine ⟨t, rfl, ?_⟩
      rw [Except.ok.inj ht]
      refine ⟨rfl, ?_⟩
      show '"' :: (body ++ ['"']) = '"' :: ((String.ofList body).toList ++ ['"'])
      rw [String.toList_ofList]
    · rw [stringEnd, if_neg hquote] at h
      obtain ⟨t, _, ht⟩ := List.map_eq_singleton_iff.mp h.symm
      simp at ht

/-- A match without faults is a blank character or one token. -/
theorem munch_of_tokens {p : Position} {c : Char} {text : List Char} {tokens : List Token}
    (h : (munch p c text).found = tokens.map .ok) :
    tokens = [] ∧ (munch p c text).taken = [c] ∧ Text.isBlank c ∨
      ∃ t, tokens = [t] ∧ t.StandsAt p (munch p c text).taken := by
  revert h
  refine munch_cases (P := fun m => m.found = tokens.map .ok →
    tokens = [] ∧ m.taken = [c] ∧ Text.isBlank c ∨ ∃ t, tokens = [t] ∧ t.StandsAt p m.taken)
    ?_ ?_ ?_ ?_ ?_ ?_
  · intro hblank h
    exact Or.inl ⟨List.map_eq_nil_iff.mp h.symm, rfl, hblank⟩
  · intro _ _ h
    obtain ⟨t, rfl, ht⟩ := List.map_eq_singleton_iff.mp h.symm
    rw [Except.ok.inj ht]
    exact Or.inr ⟨_, rfl, standsAt_wordToken p _⟩
  · intro _ _ h
    obtain ⟨t, rfl, ht⟩ := List.map_eq_singleton_iff.mp h.symm
    exact Or.inr ⟨t, rfl, standsAt_digits ht.symm⟩
  · intro _ h
    obtain ⟨us, vs, rfl, hfaults, hend⟩ := List.append_eq_map_iff.mp h
    obtain rfl : us = [] := by
      cases us with
      | nil => rfl
      | cons u us =>
        cases hfault : escapeFaults (p.after '"') (quotedBody text) with
        | nil => simp [hfault] at hfaults
        | cons d ds => simp [hfault] at hfaults
    exact Or.inr (standsAt_stringEnd hend.symm)
  · intro _ _ h
    obtain ⟨t, rfl, ht⟩ := List.map_eq_singleton_iff.mp h.symm
    exact Or.inr ⟨t, rfl, standsAt_operator ht.symm⟩
  · intro _ _ h
    obtain ⟨t, rfl, ht⟩ := List.map_eq_singleton_iff.mp h.symm
    exact Or.inr ⟨t, rfl, standsAt_single ht.symm⟩

/-- The tokens of a text without faults are laid out in it. -/
theorem exists_laid {p : Position} {text : List Char} {tokens : List Token}
    (h : findings p text = tokens.map .ok) :
    ∃ places, places.map Place.token = tokens ∧ Laid p text places := by
  induction hn : text.length using Nat.strongRecOn generalizing p text tokens with
  | ind n ih =>
    cases text with
    | nil =>
      rw [findings_nil] at h
      obtain rfl := List.map_eq_nil_iff.mp h.symm
      exact ⟨[], rfl, laid_nil p⟩
    | cons c text =>
      have hle := length_left_le p c text
      have htext := taken_append_left p c text
      simp only [List.length_cons] at hn
      rw [findings_cons] at h
      obtain ⟨us, vs, rfl, hfound, hlater⟩ := List.append_eq_map_iff.mp h
      obtain ⟨places, rfl, hplaces⟩ := ih _ (by omega) hlater.symm rfl
      have htokens : ∀ count, (places.map (Place.shift count)).map Place.token =
          places.map Place.token := by
        intro count
        rw [List.map_map]
        rfl
      rcases munch_of_tokens hfound.symm with ⟨rfl, htaken, hblank⟩ | ⟨t, rfl, ht⟩
      · refine ⟨places.map (Place.shift 1), htokens 1, ?_⟩
        rw [htaken] at hplaces htext
        rw [← htext]
        exact hplaces.cons_blank hblank
      · refine ⟨⟨0, (munch p c text).taken, t⟩ ::
          places.map (Place.shift (munch p c text).taken.length), ?_, ?_⟩
        · rw [List.map_cons, htokens]
          rfl
        · rw [← htext]
          exact hplaces.cons_token (taken_ne_nil p c text) ht.position ht.written

/-- The offsets of tokens increase, up to the end of the text. -/
theorem Laid.increasing {p : Position} {text : List Char} {places : List Place}
    (h : Laid p text places) :
    (places.map Place.start ++ [text.length]).Pairwise (· < ·) := by
  have hstop : ∀ x ∈ places, x.start < x.stop ∧ x.stop ≤ text.length := by
    intro x hx
    obtain ⟨hne, hprefix, -⟩ := h.written x hx
    have hpos := List.length_pos_iff.mpr hne
    have hle := hprefix.length_le
    rw [List.length_drop] at hle
    unfold Place.stop
    omega
  refine List.pairwise_append.mpr ⟨List.pairwise_map.mpr ?_, List.pairwise_singleton _ _, ?_⟩
  · refine h.inOrder.imp_of_mem ?_
    intro x y hx _ hxy
    have hlt := (hstop x hx).1
    omega
  · intro start hstart stop hend
    obtain ⟨x, hx, rfl⟩ := List.mem_map.mp hstart
    rw [List.mem_singleton.mp hend]
    have hlt := hstop x hx
    omega

/-! ## The faults of a text -/

/-- A diagnostic and its offset. -/
structure Spot where
  offset : Nat
  diagnostic : Diagnostic

namespace Spot

/-- The same spot, in a text with some more characters in front. -/
def shift (count : Nat) (x : Spot) : Spot :=
  { x with offset := count + x.offset }

/-- The spot is in a text that starts at a position. -/
def IsIn (p : Position) (text : List Char) (x : Spot) : Prop :=
  x.offset ≤ text.length ∧ x.diagnostic.position = p.afterAll (text.take x.offset)

/-- The first spot is in front of the second, or a number has been lumped together with a character
that is no token itself. -/
def Precedes (text : List Char) (x y : Spot) : Prop :=
  x.offset < y.offset ∨
    x.offset = y.offset ∧ x.diagnostic.fault = .lexical .lumpedNumber ∧
      ∃ c, text[y.offset]? = some c ∧ y.diagnostic.fault = .lexical (.invalidToken c)

theorem IsIn.append {p : Position} {text : List Char} {x : Spot} (h : IsIn p text x)
    (more : List Char) : IsIn p (text ++ more) x := by
  refine ⟨?_, ?_⟩
  · rw [List.length_append]
    exact Nat.le_add_right_of_le h.1
  · rw [List.take_append_of_le_length h.1]
    exact h.2

theorem IsIn.shift {p : Position} {front text : List Char} {x : Spot}
    (h : IsIn (p.afterAll front) text x) : IsIn p (front ++ text) (x.shift front.length) := by
  refine ⟨?_, ?_⟩
  · rw [List.length_append]
    exact Nat.add_le_add_left h.1 _
  · show x.diagnostic.position = p.afterAll ((front ++ text).take (front.length + x.offset))
    rw [List.take_length_add_append, Position.afterAll_append]
    exact h.2

theorem Precedes.shift {front text : List Char} {x y : Spot} (h : Precedes text x y) :
    Precedes (front ++ text) (x.shift front.length) (y.shift front.length) := by
  rcases h with hlt | ⟨heq, hlumped, c, hc, hinvalid⟩
  · exact Or.inl (Nat.add_lt_add_left hlt _)
  · refine Or.inr ⟨congrArg (front.length + ·) heq, hlumped, c, ?_, hinvalid⟩
    show (front ++ text)[front.length + y.offset]? = some c
    rw [List.getElem?_append_right (Nat.le_add_right _ _), Nat.add_sub_cancel_left]
    exact hc

theorem map_diagnostic_shift (count : Nat) (spots : List Spot) :
    (spots.map (Spot.shift count)).map Spot.diagnostic = spots.map Spot.diagnostic := by
  rw [List.map_map]
  rfl

theorem pairwise_shift {spots : List Spot} (count : Nat)
    (h : spots.Pairwise fun x y => x.offset < y.offset) :
    (spots.map (Spot.shift count)).Pairwise fun x y => x.offset < y.offset :=
  List.pairwise_map.mpr (h.imp fun hlt => Nat.add_lt_add_left hlt count)

end Spot

/-- The faults that a match finds are at these spots of the characters that it takes.  What the next
match may find depends on a fault behind the last of them, and on the first character. -/
structure Munch.Reports (m : Munch) (p : Position) (c : Char) (spots : List Spot) : Prop where
  faults : spots.map Spot.diagnostic = m.found.filterMap errorOf?
  located : ∀ x ∈ spots, x.IsIn p m.taken
  increasing : spots.Pairwise fun x y => x.offset < y.offset
  atStart : ∀ x ∈ spots, x.offset = 0 →
    ¬ Text.isBlank c ∧
      (isWordPart c → ¬ c.isDigit → x.diagnostic.fault = .lexical (.invalidToken c))
  atEnd : ∀ x ∈ spots, x.offset = m.taken.length →
    (∀ d ∈ m.left.head?, Text.isBlank d) ∨
      x.diagnostic.fault = .lexical .lumpedNumber ∧
        ∃ d, m.left.head? = some d ∧ isWordPart d ∧ ¬ d.isDigit

section Reports

variable {p : Position} {c : Char}

theorem reports_nil {m : Munch} (h : m.found.filterMap errorOf? = []) : m.Reports p c [] where
  faults := h.symm
  located x hx := by simp at hx
  increasing := List.Pairwise.nil
  atStart x hx := by simp at hx
  atEnd x hx := by simp at hx

/-- A fault at the first character of what is taken. -/
theorem reports_start {m : Munch} {fault : Fault}
    (h : m.found.filterMap errorOf? = [⟨p, fault⟩]) (hne : m.taken ≠ [])
    (hblank : ¬ Text.isBlank c)
    (hword : isWordPart c → ¬ c.isDigit → fault = .lexical (.invalidToken c)) :
    m.Reports p c [⟨0, ⟨p, fault⟩⟩] where
  faults := h.symm
  located x hx := by
    rw [List.mem_singleton.mp hx]
    exact ⟨Nat.zero_le _, rfl⟩
  increasing := List.pairwise_singleton _ _
  atStart x hx _ := by
    rw [List.mem_singleton.mp hx]
    exact ⟨hblank, hword⟩
  atEnd x hx hend := by
    rw [List.mem_singleton.mp hx] at hend
    exact absurd (List.eq_nil_of_length_eq_zero hend.symm) hne

theorem exists_reports_digits {digits left : List Char} (hne : digits ≠ [])
    (hblank : ¬ Text.isBlank c) (hdigit : c.isDigit)
    (hleft : ∀ d ∈ left.head?, ¬ d.isDigit) :
    ∃ spots, Munch.Reports ⟨[digitsFinding p digits left], digits, left⟩ p c spots := by
  by_cases hlumped : left.head?.any isWordPart
  · refine ⟨[⟨digits.length, ⟨p.afterAll digits, .lexical .lumpedNumber⟩⟩], ?_, ?_,
      List.pairwise_singleton _ _, ?_, ?_⟩
    · rw [digitsFinding, if_pos hlumped]
      rfl
    · intro x hx
      rw [List.mem_singleton.mp hx]
      refine ⟨Nat.le_refl _, ?_⟩
      rw [List.take_length]
    · intro x hx hzero
      rw [List.mem_singleton.mp hx] at hzero
      exact absurd (List.eq_nil_of_length_eq_zero hzero) hne
    · intro x hx _
      rw [List.mem_singleton.mp hx]
      obtain ⟨d, hd, hpart⟩ := Option.any_eq_true _ _ |>.mp hlumped
      exact Or.inr ⟨rfl, d, hd, hpart, hleft d hd⟩
  · by_cases hvalue : (Integer.ofText? (String.ofList digits)).isSome
    · refine ⟨[], reports_nil ?_⟩
      rw [digitsFinding, if_neg hlumped, if_pos hvalue]
      rfl
    · have hlong : [digitsFinding p digits left].filterMap errorOf? =
          [⟨p, .lexical (.numberTooLong (String.ofList digits))⟩] := by
        rw [digitsFinding, if_neg hlumped, if_neg hvalue]
        rfl
      exact ⟨_, reports_start hlong hne hblank fun _ hnot => absurd hdigit hnot⟩

/-- What holds of each operator character by itself holds of them all. -/
theorem of_isOperatorChar {P : Char → Bool}
    (hall : ['=', '!', '<', '>', '+', '-', '*', '/', '%'].all P) (h : isOperatorChar c) : P c := by
  refine List.all_eq_true.mp hall c ?_
  simpa [isOperatorChar] using h

theorem isWordPart_of_isOperatorChar (h : isOperatorChar c) : ¬ isWordPart c := by
  have hnot := of_isOperatorChar (P := fun d => !isWordPart d) (by decide) h
  simpa using hnot

theorem exists_reports_operator {run left : List Char} (hne : run ≠ [])
    (hblank : ¬ Text.isBlank c) (hoperator : isOperatorChar c) :
    ∃ spots, Munch.Reports ⟨[operatorFinding p run], run, left⟩ p c spots := by
  by_cases hmem : String.ofList run ∈ operators
  · refine ⟨[], reports_nil ?_⟩
    rw [operatorFinding, if_pos hmem]
    rfl
  · have hinvalid : [operatorFinding p run].filterMap errorOf? =
        [⟨p, .lexical (.invalidOperator (String.ofList run))⟩] := by
      rw [operatorFinding, if_neg hmem]
      rfl
    refine ⟨_, reports_start hinvalid hne hblank ?_⟩
    intro hpart
    exact absurd hpart (isWordPart_of_isOperatorChar hoperator)

theorem exists_reports_single {text : List Char} (hblank : ¬ Text.isBlank c) :
    ∃ spots, Munch.Reports ⟨[singleFinding p c], [c], text⟩ p c spots := by
  cases hc : punctuation? c with
  | some kind =>
    refine ⟨[], reports_nil ?_⟩
    simp only [singleFinding, hc]
    rfl
  | none =>
    have hinvalid : [singleFinding p c].filterMap errorOf? =
        [⟨p, .lexical (.invalidToken c)⟩] := by
      simp only [singleFinding, hc]
      rfl
    exact ⟨_, reports_start hinvalid (List.cons_ne_nil c []) hblank fun _ _ => rfl⟩

/-- Spots in front of the end of a text, one behind the other. -/
structure Inside (p : Position) (text : List Char) (spots : List Spot) : Prop where
  located : ∀ x ∈ spots, x.offset < text.length ∧ x.IsIn p text
  increasing : spots.Pairwise fun x y => x.offset < y.offset

theorem Inside.shift {front text : List Char} {spots : List Spot}
    (h : Inside (p.afterAll front) text spots) :
    Inside p (front ++ text) (spots.map (Spot.shift front.length)) := by
  refine ⟨?_, Spot.pairwise_shift _ h.increasing⟩
  intro x hx
  obtain ⟨y, hy, rfl⟩ := List.mem_map.mp hx
  obtain ⟨hlt, hin⟩ := h.located y hy
  refine ⟨?_, hin.shift⟩
  rw [List.length_append]
  exact Nat.add_lt_add_left hlt _

/-- The faults inside of a string are in front of its end. -/
theorem exists_inside_escapeFaults (p : Position) (text : List Char) :
    ∃ spots, spots.map Spot.diagnostic = escapeFaults p text ∧ Inside p text spots := by
  fun_induction escapeFaults p text with
  | case1 p => exact ⟨[], rfl, ⟨by simp, List.Pairwise.nil⟩⟩
  | case2 p c cs later hescape ih =>
    obtain ⟨spots, hspots, hinside⟩ := ih
    have hafter : Inside (p.afterAll ['\\', c]) cs spots := hinside
    exact ⟨_, by rw [Spot.map_diagnostic_shift, hspots], hafter.shift⟩
  | case3 p c cs later hescape ih =>
    obtain ⟨spots, hspots, hinside⟩ := ih
    have hafter : Inside (p.afterAll ['\\', c]) cs spots := hinside
    refine ⟨⟨1, ⟨p.after '\\', .lexical (.invalidEscape c)⟩⟩ :: spots.map (Spot.shift 2),
      ?_, ?_, ?_⟩
    · rw [List.map_cons, Spot.map_diagnostic_shift, hspots]
    · intro x hx
      rcases List.mem_cons.mp hx with rfl | hx
      · exact ⟨by simp, by simp, rfl⟩
      · exact hafter.shift.located x hx
    · refine List.pairwise_cons.mpr ⟨?_, hafter.shift.increasing⟩
      intro x hx
      obtain ⟨y, _, rfl⟩ := List.mem_map.mp hx
      exact Nat.lt_add_right y.offset Nat.one_lt_two
  | case4 p c cs hpair ih =>
    obtain ⟨spots, hspots, hinside⟩ := ih
    have hafter : Inside (p.afterAll [c]) cs spots := hinside
    exact ⟨_, by rw [Spot.map_diagnostic_shift, hspots], hafter.shift⟩

/-- The faults inside of a string, counted from its quote. -/
theorem exists_inside_quoted (p : Position) (body : List Char) :
    ∃ spots, spots.map Spot.diagnostic = escapeFaults (p.after '"') body ∧
      Inside p ('"' :: body) spots ∧ ∀ x ∈ spots, x.offset ≠ 0 := by
  obtain ⟨spots, hspots, hinside⟩ := exists_inside_escapeFaults (p.after '"') body
  have hafter : Inside (p.afterAll ['"']) body spots := hinside
  refine ⟨spots.map (Spot.shift 1), ?_, hafter.shift, ?_⟩
  · rw [Spot.map_diagnostic_shift, hspots]
  · intro x hx
    obtain ⟨y, _, rfl⟩ := List.mem_map.mp hx
    simp only [Spot.shift]
    omega

/-- A string that is closed. -/
theorem exists_reports_closed {m : Munch} {body : List Char}
    (hfound : m.found.filterMap errorOf? = escapeFaults (p.after '"') body)
    (htaken : m.taken = '"' :: body ++ ['"']) : ∃ spots, m.Reports p c spots := by
  obtain ⟨spots, hspots, hinside, hzero⟩ := exists_inside_quoted p body
  refine ⟨spots, hspots.trans hfound.symm, ?_, hinside.increasing, ?_, ?_⟩
  · intro x hx
    rw [htaken]
    exact (hinside.located x hx).2.append _
  · intro x hx h
    exact absurd h (hzero x hx)
  · intro x hx hend
    have hlt := (hinside.located x hx).1
    rw [hend, htaken, List.length_append] at hlt
    omega

/-- A string that is cut off, with a fault behind the last character of it. -/
theorem exists_reports_cutOff {m : Munch} {body : List Char} {fault : Fault}
    (hfound : m.found.filterMap errorOf? =
      escapeFaults (p.after '"') body ++ [⟨p.afterAll ('"' :: body), fault⟩])
    (htaken : m.taken = '"' :: body) (hleft : ∀ d ∈ m.left.head?, Text.isBlank d) :
    ∃ spots, m.Reports p c spots := by
  obtain ⟨spots, hspots, hinside, hzero⟩ := exists_inside_quoted p body
  refine ⟨spots ++ [⟨('"' :: body).length, ⟨p.afterAll ('"' :: body), fault⟩⟩], ?_, ?_, ?_, ?_,
    fun _ _ _ => Or.inl hleft⟩
  · rw [List.map_append, hspots, hfound]
    rfl
  · intro x hx
    rw [htaken]
    rcases List.mem_append.mp hx with hx | hx
    · exact (hinside.located x hx).2
    · rw [List.mem_singleton.mp hx]
      refine ⟨Nat.le_refl _, ?_⟩
      rw [List.take_length]
  · refine List.pairwise_append.mpr ⟨hinside.increasing, List.pairwise_singleton _ _, ?_⟩
    intro x hx y hy
    rw [List.mem_singleton.mp hy]
    exact (hinside.located x hx).1
  · intro x hx h
    rcases List.mem_append.mp hx with hx | hx
    · exact absurd h (hzero x hx)
    · rw [List.mem_singleton.mp hx] at h
      simp at h

theorem filterMap_errorOf?_append_map (ds : List Diagnostic)
    (found : List (Except Diagnostic Token)) :
    (ds.map Except.error ++ found).filterMap errorOf? = ds ++ found.filterMap errorOf? := by
  rw [List.filterMap_append, filterMap_errorOf?_map_error]

theorem isLineEnd_iff {d : Char} : isLineEnd d ↔ d = '\r' ∨ d = '\n' := by
  simp [isLineEnd]

theorem isBlank_of_isLineEnd {d : Char} (h : isLineEnd d) : Text.isBlank d := by
  rcases isLineEnd_iff.mp h with rfl | rfl
  · decide
  · decide

/-- Behind the body of a string is its quote, the end of the line, or nothing. -/
theorem head?_drop_quotedBody (text : List Char) :
    ∀ d ∈ (text.drop (quotedBody text).length).head?, d ≠ '"' → Text.isBlank d := by
  fun_induction quotedBody text with
  | case1 => simp
  | case2 c cs hend =>
    intro d hd _
    rw [← Option.some.inj hd]
    exact isBlank_of_isLineEnd hend
  | case3 c cs hend ih => exact ih
  | case4 c cs hpair hend =>
    intro d hd hquote
    rw [← Option.some.inj hd] at hquote ⊢
    exact isBlank_of_isLineEnd (hend.resolve_left hquote)
  | case5 c cs hpair hend ih => exact ih

theorem exists_reports_string (text : List Char) :
    ∃ spots, (munchString p text).Reports p c spots := by
  have hhead := head?_drop_quotedBody text
  unfold munchString
  dsimp only
  cases hrest : text.drop (quotedBody text).length with
  | nil =>
    refine exists_reports_cutOff (filterMap_errorOf?_append_map _ _) rfl ?_
    intro d hd
    simp [stringEnd] at hd
  | cons d left =>
    rw [hrest] at hhead
    by_cases hquote : d = '"'
    · rw [stringEnd, if_pos hquote]
      refine exists_reports_closed ?_ rfl
      exact (filterMap_errorOf?_append_map _ _).trans (List.append_nil _)
    · rw [stringEnd, if_neg hquote]
      refine exists_reports_cutOff (filterMap_errorOf?_append_map _ _) rfl ?_
      intro e he
      rw [← Option.some.inj he]
      exact hhead d rfl hquote

/-- The faults of a match are at spots of what it takes. -/
theorem exists_reports (p : Position) (c : Char) (text : List Char) :
    ∃ spots, (munch p c text).Reports p c spots := by
  refine munch_cases (P := fun m => ∃ spots, m.Reports p c spots) ?_ ?_ ?_ ?_ ?_ ?_
  · intro _
    exact ⟨[], reports_nil rfl⟩
  · intro _ _
    exact ⟨[], reports_nil rfl⟩
  · intro hblank hdigit
    refine exists_reports_digits (List.cons_ne_nil _ _) hblank hdigit ?_
    intro d hd
    obtain ⟨rest, hrest⟩ := List.head?_eq_some_iff.mp hd
    exact Scanner.of_dropWhile_eq_cons hrest
  · intro _
    exact exists_reports_string text
  · intro hblank hoperator
    exact exists_reports_operator (List.cons_ne_nil _ _) hblank hoperator
  · intro hblank _
    exact exists_reports_single hblank

end Reports

/-- The faults of a text are at these spots. -/
structure Reported (p : Position) (text : List Char) (spots : List Spot) : Prop where
  located : ∀ x ∈ spots, x.IsIn p text
  inOrder : spots.Pairwise (Spot.Precedes text)
  atStart : ∀ x ∈ spots, x.offset = 0 → ∃ c, text.head? = some c ∧ ¬ Text.isBlank c ∧
    (isWordPart c → ¬ c.isDigit → x.diagnostic.fault = .lexical (.invalidToken c))

theorem reported_nil (p : Position) (text : List Char) : Reported p text [] where
  located x hx := by simp at hx
  inOrder := List.Pairwise.nil
  atStart x hx := by simp at hx

/-- A fault of a match is in front of those of later matches, or a number has been lumped together
with the character that the next match starts with. -/
theorem Munch.Reports.precedes {m : Munch} {p : Position} {c : Char} {spots later : List Spot}
    (h : m.Reports p c spots) (hlater : Reported (p.afterAll m.taken) m.left later) {x y : Spot}
    (hx : x ∈ spots) (hy : y ∈ later) :
    Spot.Precedes (m.taken ++ m.left) x (y.shift m.taken.length) := by
  have hle := (h.located x hx).1
  by_cases hlt : x.offset < m.taken.length + y.offset
  · exact Or.inl hlt
  · have hend : x.offset = m.taken.length := by omega
    have hzero : y.offset = 0 := by omega
    obtain ⟨d, hd, hblank, hinvalid⟩ := hlater.atStart y hy hzero
    rcases h.atEnd x hx hend with hleft | ⟨hlumped, e, he, hpart, hdigit⟩
    · exact absurd (hleft d hd) hblank
    · obtain rfl : d = e := Option.some.inj (hd.symm.trans he)
      refine Or.inr ⟨?_, hlumped, d, ?_, hinvalid hpart hdigit⟩
      · simp only [Spot.shift]
        omega
      · simp only [Spot.shift]
        rw [hzero, Nat.add_zero, List.getElem?_append_right (Nat.le_refl _), Nat.sub_self,
          ← List.head?_eq_getElem?]
        exact hd

theorem Munch.Reports.append {p : Position} {c : Char} {text : List Char}
    {spots later : List Spot} (h : (munch p c text).Reports p c spots)
    (hlater : Reported (p.afterAll (munch p c text).taken) (munch p c text).left later) :
    Reported p (c :: text) (spots ++ later.map (Spot.shift (munch p c text).taken.length)) := by
  have htext := taken_append_left p c text
  refine ⟨?_, ?_, ?_⟩
  · intro x hx
    rw [← htext]
    rcases List.mem_append.mp hx with hx | hx
    · exact (h.located x hx).append _
    · obtain ⟨y, hy, rfl⟩ := List.mem_map.mp hx
      exact (hlater.located y hy).shift
  · rw [← htext]
    refine List.pairwise_append.mpr ⟨h.increasing.imp Or.inl, ?_, ?_⟩
    · exact List.pairwise_map.mpr (hlater.inOrder.imp Spot.Precedes.shift)
    · intro x hx y hy
      obtain ⟨z, hz, rfl⟩ := List.mem_map.mp hy
      exact h.precedes hlater hx hz
  · intro x hx hzero
    rcases List.mem_append.mp hx with hx | hx
    · exact ⟨c, rfl, h.atStart x hx hzero⟩
    · obtain ⟨y, _, rfl⟩ := List.mem_map.mp hx
      have hpos := List.length_pos_iff.mpr (taken_ne_nil p c text)
      simp only [Spot.shift] at hzero
      omega

/-- The faults of a text are at spots of it, whose offsets never go back. -/
theorem exists_reported (p : Position) (text : List Char) :
    ∃ spots, spots.map Spot.diagnostic = (findings p text).filterMap errorOf? ∧
      Reported p text spots := by
  induction hn : text.length using Nat.strongRecOn generalizing p text with
  | ind n ih =>
    cases text with
    | nil =>
      refine ⟨[], ?_, reported_nil p []⟩
      rw [findings_nil]
      rfl
    | cons c text =>
      have hle := length_left_le p c text
      simp only [List.length_cons] at hn
      obtain ⟨spots, hspots⟩ := exists_reports p c text
      obtain ⟨later, hfaults, hlater⟩ := ih _ (by omega) (p.afterAll (munch p c text).taken)
        (munch p c text).left rfl
      refine ⟨_, ?_, hspots.append hlater⟩
      rw [List.map_append, Spot.map_diagnostic_shift, hspots.faults, hfaults, findings_cons,
        List.filterMap_append]

/-! ## Whole texts -/

/-- The tokens of a text are written in it, each at the offset that its position belongs to, with
blank characters between them; the end of input is at the offset behind the last character.  The
diagnostics of a text are at offsets that never go back, and only a number that is lumped together
with a character shares its offset, with the fault of that character. -/
theorem TokenStream.ofText_located (source text : String) :
    match ofText source text with
    | .ok s =>
      s.finish = ⟨.endOfInput, "", Position.atOffset source text.toList text.toList.length⟩ ∧
      ∃ places : List Place, places.map Place.token = s.tokens ∧
        (∀ x ∈ places, x.token.position = Position.atOffset source text.toList x.start ∧
          x.written ≠ [] ∧ x.written <+: text.toList.drop x.start ∧
          x.token.WrittenAs x.written) ∧
        (places.map Place.start ++ [text.toList.length]).Pairwise (· < ·) ∧
        places.Pairwise (fun x y => x.stop ≤ y.start) ∧
        ∀ i c, text.toList[i]? = some c →
          Text.isBlank c ∨ ∃ x ∈ places, x.start ≤ i ∧ i < x.stop
    | .error ds =>
      ∃ spots : List Spot, spots.map Spot.diagnostic = ds ∧
        (∀ x ∈ spots, x.offset ≤ text.toList.length ∧
          x.diagnostic.position = Position.atOffset source text.toList x.offset) ∧
        spots.Pairwise (Spot.Precedes text.toList) := by
  cases h : ofText source text with
  | ok s =>
    obtain ⟨hfindings, hfinish⟩ := ofText_eq_ok.mp h
    obtain ⟨places, htokens, hlaid⟩ := exists_laid hfindings
    refine ⟨?_, places, htokens, ?_, ?_, hlaid.inOrder, hlaid.blank⟩
    · rw [hfinish, ← Position.afterAll_take, List.take_length]
      rfl
    · intro x hx
      rw [hlaid.position x hx, Position.afterAll_take]
      exact ⟨rfl, hlaid.written x hx⟩
    · exact hlaid.increasing
  | error ds =>
    obtain ⟨-, hfaults⟩ := ofText_eq_error.mp h
    obtain ⟨spots, hspots, hreported⟩ := exists_reported (Position.origin source) text.toList
    refine ⟨spots, hspots.trans hfaults, ?_, hreported.inOrder⟩
    intro x hx
    obtain ⟨hle, hposition⟩ := hreported.located x hx
    rw [hposition, Position.afterAll_take]
    exact ⟨hle, rfl⟩

end SqlForest
