import SqlForest.Proofs.Token.Findings

/-!
# Texts at other positions

A map of positions is steady if it does not matter whether it is applied in front of a character or
behind it.  The findings of a text that starts elsewhere are then the same findings, moved
(`findings_move`).  `Position.down n` is steady: it goes down by `n` lines, as far as lines are
counted.  It is what a text of `n` line ends does to the text behind its last line
(`Position.afterAll_newline`).
-/

namespace SqlForest

/-! ## Steady maps -/

namespace Position

/-- The map does not care whether a character comes before it or behind it. -/
def Steady (f : Position → Position) : Prop :=
  ∀ p c, f (p.after c) = (f p).after c

theorem Steady.afterAll {f : Position → Position} (hf : Steady f) (p : Position)
    (text : List Char) : f (p.afterAll text) = (f p).afterAll text := by
  induction text generalizing p with
  | nil => rfl
  | cons c text ih =>
    show f ((p.after c).afterAll text) = ((f p).after c).afterAll text
    rw [ih, hf]

/-- The position in the same column, `n` lines below. -/
def down (n : Nat) (p : Position) : Position :=
  { p with line := min (p.line + n) lastCount }

theorem steady_down (n : Nat) : Steady (down n) := by
  intro p c
  unfold after
  by_cases hc : c = '\n'
  · rw [if_pos hc, if_pos hc]
    simp only [down, countAfter, mk.injEq, and_true, true_and]
    omega
  · rw [if_neg hc, if_neg hc]
    rfl

/-! ### Lines -/

theorem line_after {p : Position} (h : p.line ≤ lastCount) (c : Char) :
    (p.after c).line = min (p.line + if c = '\n' then 1 else 0) lastCount := by
  unfold after
  by_cases hc : c = '\n'
  · rw [if_pos hc, if_pos hc]
    rfl
  · rw [if_neg hc, if_neg hc]
    show p.line = _
    omega

/-- Lines are counted by their ends. -/
theorem line_afterAll {p : Position} (h : p.line ≤ lastCount) (text : List Char) :
    (p.afterAll text).line = min (p.line + text.count '\n') lastCount := by
  induction text generalizing p with
  | nil =>
    show p.line = min (p.line + 0) lastCount
    omega
  | cons c text ih =>
    have hc := line_after h c
    have hle : (p.after c).line ≤ lastCount := by omega
    have hcount : (c :: text).count '\n' = text.count '\n' + if c = '\n' then 1 else 0 := by
      rw [List.count_cons]
      simp only [beq_iff_eq]
    show ((p.after c).afterAll text).line = _
    rw [ih hle, hc, hcount]
    omega

theorem source_after (p : Position) (c : Char) : (p.after c).source = p.source := by
  unfold after
  split
  · rfl
  · rfl

theorem source_afterAll (p : Position) (text : List Char) :
    (p.afterAll text).source = p.source := by
  induction text generalizing p with
  | nil => rfl
  | cons c text ih =>
    show ((p.after c).afterAll text).source = p.source
    rw [ih, source_after]

/-- Behind the end of a line a text starts as it does at its origin, but further down. -/
theorem afterAll_newline (source : String) (text : List Char) :
    ((origin source).afterAll text).after '\n' = (origin source).down (1 + text.count '\n') := by
  have hfirst : (origin source).line ≤ lastCount := Nat.le_add_left 1 _
  have hline := line_afterAll hfirst text
  have hsource := source_afterAll (origin source) text
  have hone : (origin source).line = 1 := rfl
  rw [after, if_pos rfl, hline, hsource, hone]
  simp only [down, countAfter, origin, mk.injEq, and_true, true_and]
  omega

end Position

/-! ## What is at a position, moved -/

/-- The token at another position. -/
def Token.move (f : Position → Position) (t : Token) : Token :=
  { t with position := f t.position }

/-- The diagnostic at another position. -/
def Diagnostic.move (f : Position → Position) (d : Diagnostic) : Diagnostic :=
  { d with position := f d.position }

/-- The finding at another position. -/
def moveFinding (f : Position → Position) : Except Diagnostic Token → Except Diagnostic Token
  | .ok t => .ok (t.move f)
  | .error d => .error (d.move f)

/-- The same match with its findings elsewhere. -/
def Munch.move (f : Position → Position) (m : Munch) : Munch :=
  { m with found := m.found.map (moveFinding f) }

theorem filterMap_errorOf?_moveFinding (f : Position → Position)
    (found : List (Except Diagnostic Token)) :
    (found.map (moveFinding f)).filterMap errorOf? =
      (found.filterMap errorOf?).map (Diagnostic.move f) := by
  induction found with
  | nil => rfl
  | cons x found ih =>
    cases x with
    | ok t => exact ih
    | error d =>
      show d.move f :: (found.map (moveFinding f)).filterMap errorOf? = _
      rw [ih]
      rfl

section Steady

variable {f : Position → Position}

theorem wordToken_move (p : Position) (word : List Char) :
    wordToken (f p) word = (wordToken p word).move f := by
  unfold wordToken
  split
  · rfl
  · rfl

theorem digitsFinding_move (hf : Position.Steady f) (p : Position) (digits left : List Char) :
    digitsFinding (f p) digits left = moveFinding f (digitsFinding p digits left) := by
  unfold digitsFinding
  rw [← hf.afterAll]
  split
  · rfl
  · split
    · rfl
    · rfl

theorem operatorFinding_move (p : Position) (run : List Char) :
    operatorFinding (f p) run = moveFinding f (operatorFinding p run) := by
  unfold operatorFinding
  split
  · rfl
  · rfl

theorem singleFinding_move (p : Position) (c : Char) :
    singleFinding (f p) c = moveFinding f (singleFinding p c) := by
  unfold singleFinding
  split
  · rfl
  · rfl

theorem escapeFaults_move (hf : Position.Steady f) (p : Position) (text : List Char) :
    escapeFaults (f p) text = (escapeFaults p text).map (Diagnostic.move f) := by
  fun_induction escapeFaults p text with
  | case1 => rfl
  | case2 p c cs later hescape ih =>
    rw [escapeFaults, if_pos hescape, ← hf, ← hf]
    exact ih
  | case3 p c cs later hescape ih =>
    rw [escapeFaults, if_neg hescape, ← hf, ← hf, ih]
    rfl
  | case4 p c cs hpair ih =>
    rw [escapeFaults, ← hf]
    · exact ih
    · exact hpair

theorem stringEnd_move (hf : Position.Steady f) (p : Position) (body rest : List Char) :
    stringEnd (f p) body rest = (stringEnd p body rest).move f := by
  cases rest with
  | nil =>
    rw [stringEnd, ← hf.afterAll]
    rfl
  | cons c left =>
    rw [stringEnd, stringEnd, ← hf.afterAll]
    split
    · rfl
    · rfl

theorem munchString_move (hf : Position.Steady f) (p : Position) (text : List Char) :
    munchString (f p) text = (munchString p text).move f := by
  have hfaults : ∀ body, (escapeFaults (f (p.after '"')) body).map Except.error =
      ((escapeFaults (p.after '"') body).map Except.error).map (moveFinding f) := by
    intro body
    rw [escapeFaults_move hf, List.map_map, List.map_map]
    rfl
  unfold munchString
  dsimp only
  rw [stringEnd_move hf, ← hf, hfaults]
  simp only [Munch.move, List.map_append]

theorem munch_move (hf : Position.Steady f) (p : Position) (c : Char) (text : List Char) :
    munch (f p) c text = (munch p c text).move f := by
  unfold munch
  simp only [wordToken_move, digitsFinding_move hf, operatorFinding_move, singleFinding_move,
    munchString_move hf]
  repeat' split
  all_goals rfl

/-- The findings of a text at another position are its findings, moved there. -/
theorem findings_move (hf : Position.Steady f) (p : Position) (text : List Char) :
    findings (f p) text = (findings p text).map (moveFinding f) := by
  induction hn : text.length using Nat.strongRecOn generalizing p text with
  | ind n ih =>
    cases text with
    | nil => rw [findings_nil, findings_nil, List.map_nil]
    | cons c text =>
      have hle := length_left_le p c text
      simp only [List.length_cons] at hn
      have hlater := ih (munch p c text).left.length (by omega)
        (p.afterAll (munch p c text).taken) (munch p c text).left rfl
      rw [findings_cons, findings_cons, munch_move hf, List.map_append, ← hlater, hf.afterAll]
      rfl

end Steady

end SqlForest
