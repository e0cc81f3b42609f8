import SqlForest.Proofs.Token.Motion

/-!
# Texts on consecutive lines

No match goes past the end of a line.  In front of one a match is what it is at the end of the text,
but for a string without a closing quote: there its fault has another name (`munch_newline`).  So
the findings of two texts with a line end between them are those of the first, and behind them those
of the second, which stand as many lines further down as the first text and the line end take up
(`findingsOf_newline`).
-/

namespace SqlForest

/-! ## Runs in front of a character that ends them -/

section Runs

variable {goesOn : Char → Bool} {d : Char}

theorem takeWhile_append_cons (h : goesOn d = false) (text more : List Char) :
    (text ++ d :: more).takeWhile goesOn = text.takeWhile goesOn := by
  induction text with
  | nil => simp [h]
  | cons c text ih =>
    rw [List.cons_append, List.takeWhile_cons, List.takeWhile_cons, ih]

theorem dropWhile_append_cons (h : goesOn d = false) (text more : List Char) :
    (text ++ d :: more).dropWhile goesOn = text.dropWhile goesOn ++ d :: more := by
  induction text with
  | nil => simp [h]
  | cons c text ih =>
    rw [List.cons_append, List.dropWhile_cons, List.dropWhile_cons, ih]
    split
    · rfl
    · rfl

end Runs

/-! ## Findings in front of a line end -/

/-- A fault of a text that goes on behind a line end.  A string that was cut off by the end of the
text is cut off by the end of its line. -/
def Diagnostic.beforeNewline (d : Diagnostic) : Diagnostic :=
  if d.fault = .lexical .unterminatedString then
    { d with fault := .lexical .multilineString }
  else d

/-- A finding in a text that goes on behind a line end. -/
def findingBeforeNewline : Except Diagnostic Token → Except Diagnostic Token
  | .ok t => .ok t
  | .error d => .error d.beforeNewline

/-- No string among the findings has been cut off by the end of the text. -/
def Settled (found : List (Except Diagnostic Token)) : Prop :=
  ∀ x ∈ found, findingBeforeNewline x = x

theorem settled_nil : Settled [] := by
  intro x hx
  simp at hx

theorem settled_singleton {x : Except Diagnostic Token} (h : findingBeforeNewline x = x) :
    Settled [x] := by
  intro y hy
  rwa [List.mem_singleton.mp hy]

theorem Settled.append {found later : List (Except Diagnostic Token)} (h : Settled found)
    (h' : Settled later) : Settled (found ++ later) := by
  intro x hx
  rcases List.mem_append.mp hx with hx | hx
  · exact h x hx
  · exact h' x hx

theorem Settled.dropLast {found : List (Except Diagnostic Token)} (h : Settled found) :
    Settled found.dropLast := by
  intro x hx
  exact h x (List.dropLast_subset found hx)

theorem Settled.map {found : List (Except Diagnostic Token)} (h : Settled found) :
    found.map findingBeforeNewline = found := by
  rw [List.map_congr_left h]
  exact List.map_id' found

/-- A match in a text that goes on behind a line end. -/
def Munch.beforeNewline (m : Munch) (more : List Char) : Munch where
  found := m.found.map findingBeforeNewline
  taken := m.taken
  left := m.left ++ '\n' :: more

theorem digitsFinding_newline (p : Position) (digits left more : List Char) :
    digitsFinding p digits (left ++ '\n' :: more) = digitsFinding p digits left := by
  have hhead : (left ++ '\n' :: more).head?.any isWordPart = left.head?.any isWordPart := by
    cases left with
    | nil => exact (by decide : isWordPart '\n' = false)
    | cons c left => rfl
  unfold digitsFinding
  rw [hhead]

theorem findingBeforeNewline_digits (p : Position) (digits left : List Char) :
    findingBeforeNewline (digitsFinding p digits left) = digitsFinding p digits left := by
  unfold digitsFinding
  split
  · rfl
  · split
    · rfl
    · rfl

theorem findingBeforeNewline_operator (p : Position) (run : List Char) :
    findingBeforeNewline (operatorFinding p run) = operatorFinding p run := by
  unfold operatorFinding
  split
  · rfl
  · rfl

theorem findingBeforeNewline_single (p : Position) (c : Char) :
    findingBeforeNewline (singleFinding p c) = singleFinding p c := by
  unfold singleFinding
  split
  · rfl
  · rfl

/-- The body of a string ends in front of a line end, also behind a backslash. -/
theorem quotedBody_newline (text more : List Char) :
    quotedBody (text ++ '\n' :: more) = quotedBody text := by
  have hnewline : quotedBody ('\n' :: more) = [] := by
    rw [quotedBody, if_pos (Or.inr (by decide))]
    intro _ _ hc
    exact absurd hc (by decide)
  fun_induction quotedBody text with
  | case1 => exact hnewline
  | case2 c cs hend =>
    rw [List.cons_append, List.cons_append, quotedBody, if_pos hend]
  | case3 c cs hend ih =>
    rw [List.cons_append, List.cons_append, quotedBody, if_neg hend, ih]
  | case4 c cs hpair hend =>
    rw [List.cons_append, quotedBody, if_pos hend]
    intro d ds hc _
    rw [hc] at hend
    simp [isLineEnd] at hend
  | case5 c cs hpair hend ih =>
    by_cases hbackslash : c = '\\'
    · -- The backslash is the last character of the text.
      cases cs with
      | nil =>
        rw [hbackslash]
        rfl
      | cons d ds => exact absurd rfl (hpair d ds hbackslash)
    · rw [List.cons_append, quotedBody, if_neg hend, ih]
      intro _ _ hc
      exact absurd hc hbackslash

theorem drop_quotedBody_newline (text more : List Char) :
    (text ++ '\n' :: more).drop (quotedBody text).length =
      text.drop (quotedBody text).length ++ '\n' :: more := by
  have hle : (quotedBody text).length ≤ text.length := by
    have hlength := congrArg List.length (quotedBody_append_drop text)
    rw [List.length_append] at hlength
    omega
  exact List.drop_append_of_le_length hle

theorem settled_escapeFaults (p : Position) (text : List Char) :
    Settled ((escapeFaults p text).map Except.error) := by
  fun_induction escapeFaults p text with
  | case1 => exact settled_nil
  | case2 p c cs later hescape ih => exact ih
  | case3 p c cs later hescape ih => exact (settled_singleton rfl).append ih
  | case4 p c cs hpair ih => exact ih

theorem stringEnd_newline (p : Position) (body rest more : List Char) :
    stringEnd p body (rest ++ '\n' :: more) = (stringEnd p body rest).beforeNewline more := by
  cases rest with
  | nil => rfl
  | cons c left =>
    rw [List.cons_append, stringEnd, stringEnd]
    split
    · rfl
    · rfl

theorem munchString_newline (p : Position) (text more : List Char) :
    munchString p (text ++ '\n' :: more) = (munchString p text).beforeNewline more := by
  unfold munchString
  dsimp only
  rw [quotedBody_newline, drop_quotedBody_newline, stringEnd_newline]
  simp only [Munch.beforeNewline, List.map_append, (settled_escapeFaults _ _).map]

/-- A match is the same in front of a line end, but for the fault of a string that is cut off. -/
theorem munch_newline (p : Position) (c : Char) (text more : List Char) :
    munch p c (text ++ '\n' :: more) = (munch p c text).beforeNewline more := by
  have hword : isWordPart '\n' = false := by decide
  have hdigit : Char.isDigit '\n' = false := by decide
  have hoperator : isOperatorChar '\n' = false := by decide
  unfold munch
  simp only [takeWhile_append_cons hword, dropWhile_append_cons hword,
    takeWhile_append_cons hdigit, dropWhile_append_cons hdigit, takeWhile_append_cons hoperator,
    dropWhile_append_cons hoperator, digitsFinding_newline, munchString_newline]
  repeat' split
  · rfl
  · rfl
  · simp only [Munch.beforeNewline, List.map_cons, List.map_nil, findingBeforeNewline_digits]
  · rfl
  · simp only [Munch.beforeNewline, List.map_cons, List.map_nil, findingBeforeNewline_operator]
  · simp only [Munch.beforeNewline, List.map_cons, List.map_nil, findingBeforeNewline_single]

/-- The findings of a text in front of a line end, and behind them those of what follows. -/
theorem findings_newline (p : Position) (text more : List Char) :
    findings p (text ++ '\n' :: more) =
      (findings p text).map findingBeforeNewline ++
        findings ((p.afterAll text).after '\n') more := by
  induction hn : text.length using Nat.strongRecOn generalizing p text with
  | ind n ih =>
    cases text with
    | nil =>
      rw [List.nil_append, findings_cons, findings_nil, List.map_nil, List.nil_append]
      rfl
    | cons c text =>
      have hle := length_left_le p c text
      simp only [List.length_cons] at hn
      have hlater := ih (munch p c text).left.length (by omega)
        (p.afterAll (munch p c text).taken) (munch p c text).left rfl
      rw [← Position.afterAll_append, taken_append_left] at hlater
      rw [List.cons_append, findings_cons, findings_cons, munch_newline, List.map_append,
        List.append_assoc, ← hlater]
      rfl

/-! ## The fault that has another name is the last one -/

theorem settled_dropLast_append {found later : List (Except Diagnostic Token)}
    (h : Settled found) (h' : Settled later.dropLast) : Settled (found ++ later).dropLast := by
  by_cases hnil : later = []
  · rw [hnil, List.append_nil]
    exact h.dropLast
  · rw [List.dropLast_append_of_ne_nil hnil]
    exact h.append h'

theorem settled_stringEnd (p : Position) (body rest : List Char) :
    Settled (stringEnd p body rest).found ∨
      (stringEnd p body rest).left = [] ∧ Settled (stringEnd p body rest).found.dropLast := by
  cases rest with
  | nil => exact Or.inr ⟨rfl, settled_nil⟩
  | cons c left =>
    left
    rw [stringEnd]
    split
    · exact settled_singleton rfl
    · exact settled_singleton rfl

/-- A string that the end of the text cuts off is the last match. -/
theorem settled_munch (p : Position) (c : Char) (text : List Char) :
    Settled (munch p c text).found ∨
      (munch p c text).left = [] ∧ Settled (munch p c text).found.dropLast := by
  unfold munch
  repeat' split
  · exact Or.inl settled_nil
  · exact Or.inl (settled_singleton rfl)
  · exact Or.inl (settled_singleton (findingBeforeNewline_digits _ _ _))
  · have hfaults := settled_escapeFaults (p.after '"') (quotedBody text)
    rcases settled_stringEnd p (quotedBody text) (text.drop (quotedBody text).length) with
      hend | ⟨hleft, hend⟩
    · exact Or.inl (hfaults.append hend)
    · exact Or.inr ⟨hleft, settled_dropLast_append hfaults hend⟩
  · exact Or.inl (settled_singleton (findingBeforeNewline_operator _ _))
  · exact Or.inl (settled_singleton (findingBeforeNewline_single _ _))

theorem settled_dropLast_findings (p : Position) (text : List Char) :
    Settled (findings p text).dropLast := by
  induction hn : text.length using Nat.strongRecOn generalizing p text with
  | ind n ih =>
    cases text with
    | nil =>
      rw [findings_nil]
      exact settled_nil
    | cons c text =>
      have hle := length_left_le p c text
      simp only [List.length_cons] at hn
      rw [findings_cons]
      rcases settled_munch p c text with hfound | ⟨hleft, hfound⟩
      · exact settled_dropLast_append hfound (ih _ (by omega) _ _ rfl)
      · rw [hleft, findings_nil, List.append_nil]
        exact hfound

/-- The diagnostics of a text that goes on behind a line end: the last of them may have another
name. -/
def beforeNewline (ds : List Diagnostic) : List Diagnostic :=
  ds.dropLast ++ ds.getLast?.toList.map Diagnostic.beforeNewline

theorem beforeNewline_concat (ds : List Diagnostic) (d : Diagnostic) :
    beforeNewline (ds ++ [d]) = ds ++ [d.beforeNewline] := by
  unfold beforeNewline
  rw [List.dropLast_concat, List.getLast?_concat]
  rfl

theorem beforeNewline_of_settled {found : List (Except Diagnostic Token)} (h : Settled found) :
    beforeNewline (found.filterMap errorOf?) = found.filterMap errorOf? := by
  rcases List.eq_nil_or_concat (found.filterMap errorOf?) with hnil | ⟨ds, d, hlast⟩
  · rw [hnil]
    rfl
  · rw [List.concat_eq_append] at hlast
    have hmem : d ∈ found.filterMap errorOf? := by
      rw [hlast]
      exact List.mem_append_right ds (List.mem_singleton.mpr rfl)
    obtain ⟨x, hx, hd⟩ := List.mem_filterMap.mp hmem
    have hsame : d.beforeNewline = d := by
      cases x with
      | ok t => simp [errorOf?] at hd
      | error e =>
        rw [← Option.some.inj hd]
        exact Except.error.inj (h (.error e) hx)
    rw [hlast, beforeNewline_concat, hsame]

theorem filterMap_errorOf?_beforeNewline (p : Position) (text : List Char) :
    ((findings p text).map findingBeforeNewline).filterMap errorOf? =
      beforeNewline ((findings p text).filterMap errorOf?) := by
  have hsettled := settled_dropLast_findings p text
  rcases List.eq_nil_or_concat (findings p text) with hnil | ⟨found, x, hlast⟩
  · rw [hnil]
    rfl
  · rw [List.concat_eq_append] at hlast
    rw [hlast, List.dropLast_concat] at hsettled
    rw [hlast, List.map_append, hsettled.map, List.filterMap_append, List.filterMap_append]
    cases x with
    | ok t =>
      show found.filterMap errorOf? ++ [] = beforeNewline (found.filterMap errorOf? ++ [])
      rw [List.append_nil, beforeNewline_of_settled hsettled]
    | error d => exact (beforeNewline_concat _ d).symm

/-! ## Two texts on consecutive lines -/

/-- The number of lines by which a text, with a line end behind it, moves what follows. -/
def linesOf (text : String) : Nat :=
  1 + text.toList.count '\n'

theorem findingsOf_newline (source a b : String) :
    findingsOf source (a ++ "\n" ++ b) =
      (findingsOf source a).map findingBeforeNewline ++
        (findingsOf source b).map (moveFinding (Position.down (linesOf a))) := by
  have htext : (a ++ "\n" ++ b).toList = a.toList ++ '\n' :: b.toList := by
    rw [String.toList_append, String.toList_append, List.append_assoc]
    rfl
  unfold findingsOf
  rw [htext, findings_newline, Position.afterAll_newline, findings_move (Position.steady_down _)]
  rfl

theorem finishOf_newline (source a b : String) :
    finishOf source (a ++ "\n" ++ b) =
      (finishOf source b).move (Position.down (linesOf a)) := by
  have htext : (a ++ "\n" ++ b).toList = a.toList ++ ('\n' :: b.toList) := by
    rw [String.toList_append, String.toList_append, List.append_assoc]
    rfl
  have hposition : (Position.origin source).afterAll (a ++ "\n" ++ b).toList =
      ((Position.origin source).afterAll b.toList).down (linesOf a) := by
    rw [htext, Position.afterAll_append]
    show (((Position.origin source).afterAll a.toList).after '\n').afterAll b.toList = _
    rw [Position.afterAll_newline, (Position.steady_down _).afterAll]
    rfl
  unfold finishOf
  rw [hposition]
  rfl

/-- The diagnostics of a scan. -/
def TokenStream.faults : Except (List Diagnostic) TokenStream → List Diagnostic
  | .ok _ => []
  | .error ds => ds

theorem TokenStream.filterMap_errorOf?_findingsOf (source text : String) :
    (findingsOf source text).filterMap errorOf? = faults (ofText source text) := by
  cases h : ofText source text with
  | ok s =>
    rw [(ofText_eq_ok.mp h).1]
    exact filterMap_errorOf?_eq_nil.mpr ⟨_, rfl⟩
  | error ds => exact (ofText_eq_error.mp h).2

namespace TokenStream

/-- The tokens of two texts on consecutive lines, of which the first moves the second down. -/
def above (s t : TokenStream) (lines : Nat) : TokenStream where
  tokens := s.tokens ++ t.tokens.map (Token.move (Position.down lines))
  finish := t.finish.move (Position.down lines)
  kind_ne_endOfInput := by
    intro u hu
    rcases List.mem_append.mp hu with hu | hu
    · exact s.kind_ne_endOfInput u hu
    · obtain ⟨v, hv, rfl⟩ := List.mem_map.mp hu
      exact t.kind_ne_endOfInput v hv
  finish_kind := t.finish_kind

theorem ofText_above {source a b : String} {s t : TokenStream} (hs : ofText source a = .ok s)
    (ht : ofText source b = .ok t) :
    ofText source (a ++ "\n" ++ b) = .ok (s.above t (linesOf a)) := by
  obtain ⟨hfirst, -⟩ := ofText_eq_ok.mp hs
  obtain ⟨hsecond, hfinish⟩ := ofText_eq_ok.mp ht
  refine ofText_eq_ok.mpr ⟨?_, ?_⟩
  · rw [findingsOf_newline, hfirst, hsecond, List.map_map, List.map_map]
    show _ = (s.tokens ++ t.tokens.map _).map Except.ok
    rw [List.map_append, List.map_map]
    rfl
  · rw [finishOf_newline, ← hfinish]
    rfl

theorem beforeNewline_ne_nil {ds : List Diagnostic} (h : ds ≠ []) : beforeNewline ds ≠ [] := by
  rcases List.eq_nil_or_concat ds with hnil | ⟨front, d, hlast⟩
  · exact absurd hnil h
  · rw [hlast, List.concat_eq_append, beforeNewline_concat]
    simp

/-- A text with a fault in it has the faults of its parts. -/
theorem ofText_newline_of_faults {source a b : String}
    (h : faults (ofText source a) ≠ [] ∨ faults (ofText source b) ≠ []) :
    ofText source (a ++ "\n" ++ b) =
      .error (beforeNewline (faults (ofText source a)) ++
        (faults (ofText source b)).map (Diagnostic.move (Position.down (linesOf a)))) := by
  refine ofText_eq_error.mpr ⟨?_, ?_⟩
  · intro hnil
    obtain ⟨hfirst, hsecond⟩ := List.append_eq_nil_iff.mp hnil
    rcases h with h | h
    · exact beforeNewline_ne_nil h hfirst
    · exact h (List.map_eq_nil_iff.mp hsecond)
  · rw [findingsOf_newline, List.filterMap_append, filterMap_errorOf?_moveFinding,
      ← filterMap_errorOf?_findingsOf, ← filterMap_errorOf?_findingsOf]
    unfold findingsOf
    rw [filterMap_errorOf?_beforeNewline]

theorem faults_ne_nil {source text : String} {ds : List Diagnostic}
    (h : ofText source text = .error ds) : faults (ofText source text) ≠ [] := by
  rw [h]
  exact (ofText_eq_error.mp h).1

/-- Two texts with a line end between them are cut into the tokens of the first and those of the
second, moved down, if both are cut into tokens.  Otherwise all faults of both are reported, and
only the fault of a string that the first text does not close has another name. -/
theorem ofText_newline (source a b : String) :
    (ofText source (a ++ "\n" ++ b)).map toList =
      match ofText source a, ofText source b with
      | .ok s, .ok t => .ok (s.tokens ++ t.toList.map (Token.move (Position.down (linesOf a))))
      | r, r' => .error (beforeNewline (faults r) ++
          (faults r').map (Diagnostic.move (Position.down (linesOf a)))) := by
  cases ha : ofText source a with
  | ok s =>
    cases hb : ofText source b with
    | ok t =>
      rw [ofText_above ha hb]
      show Except.ok ((s.tokens ++ t.tokens.map _) ++ [t.finish.move _]) = _
      rw [List.append_assoc]
      simp only [toList, List.map_append, List.map_cons, List.map_nil]
    | error ds =>
      rw [ofText_newline_of_faults (Or.inr (faults_ne_nil hb)), ha, hb]
      rfl
  | error ds =>
    rw [ofText_newline_of_faults (Or.inl (faults_ne_nil ha)), ha]
    rfl

end TokenStream

end SqlForest
