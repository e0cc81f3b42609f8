import SqlForest.Proofs.Token.Spelling
import SqlForest.Proofs.Token.WellFormed

/-!
# Cutting a text into tokens

`Cut` says how a text falls into blanks, words and other tokens, each of which ends where it does
not go on.  The texts that are cut are those whose findings are all tokens (`exists_cut`,
`Cut.findings`).  A cut goes token by token, so what is changed about a text can be followed along
it, where the automaton would have to be run again.

The places of the tokens are determined by the tokens (`Laid.unique`), although their positions are
not enough for that: both counts of a position stop somewhere.
-/

namespace SqlForest

/-- Whether tokens of the kind may be written in any case. -/
def TokenKind.foldsCase : TokenKind → Bool
  | keyword | identifier => true
  | _ => false

theorem TokenKind.ne_of_foldsCase {kind : TokenKind} (h : kind.foldsCase = false) :
    kind ≠ .keyword ∧ kind ≠ .identifier := by
  constructor
  · rintro rfl
    cases h
  · rintro rfl
    cases h

/-- The text, which starts at a position, is cut into the tokens at these places. -/
inductive Cut : Position → List Char → List Place → Prop
  | nil (p : Position) : Cut p [] []
  | blank {p : Position} {c : Char} {text : List Char} {places : List Place}
      (hc : Text.isBlank c) (h : Cut (p.after c) text places) :
      Cut p (c :: text) (places.map (Place.shift 1))
  | word {p : Position} {word text : List Char} {places : List Place}
      (hstart : word.head?.any isWordStart) (hparts : word.tail.all isWordPart)
      (hend : text.head?.any isWordPart = false) (h : Cut (p.afterAll word) text places) :
      Cut p (word ++ text) (⟨0, word, wordToken p word⟩ :: places.map (Place.shift word.length))
  | other {p : Position} {t : Token} {written text : List Char} {places : List Place}
      (ht : t.StandsAt p written) (hwell : t.toLexeme.WellFormed)
      (hkind : t.kind.foldsCase = false) (hend : text.head?.any t.kind.goesOn = false)
      (h : Cut (p.afterAll written) text places) :
      Cut p (written ++ text) (⟨0, written, t⟩ :: places.map (Place.shift written.length))

theorem map_token_shift (count : Nat) (places : List Place) :
    (places.map (Place.shift count)).map Place.token = places.map Place.token := by
  rw [List.map_map]
  rfl

/-! ## From findings to cuts -/

section Munch

variable {p : Position}

theorem head?_any_dropWhile (goesOn : Char → Bool) (text : List Char) :
    (text.dropWhile goesOn).head?.any goesOn = false := by
  cases hrest : text.dropWhile goesOn with
  | nil => rfl
  | cons d rest => exact eq_false_of_ne_true (Scanner.of_dropWhile_eq_cons hrest)

theorem digitsFinding_eq_ok {digits left : List Char} {t : Token}
    (h : digitsFinding p digits left = .ok t) :
    t.kind = .number ∧ left.head?.any isWordPart = false := by
  unfold digitsFinding at h
  split at h
  · cases h
  · rename_i hlumped
    split at h
    · cases h
      exact ⟨rfl, eq_false_of_ne_true hlumped⟩
    · cases h

theorem kind_operatorFinding {run : List Char} {t : Token} (h : operatorFinding p run = .ok t) :
    t.kind = .operator := by
  unfold operatorFinding at h
  split at h
  · cases h
    rfl
  · cases h

/-- A token of one character neither folds case nor goes on. -/
theorem kind_singleFinding {c : Char} {t : Token} (h : singleFinding p c = .ok t) :
    t.kind.foldsCase = false ∧ ∀ text : List Char, text.head?.any t.kind.goesOn = false := by
  have hkinds : ∀ kind ∈ [TokenKind.leftParen, .rightParen, .comma, .period, .semicolon],
      kind.foldsCase = false ∧ kind.goesOn = fun _ => false := by
    simp [TokenKind.foldsCase, TokenKind.goesOn]
  unfold singleFinding at h
  split at h
  · rename_i kind hpunctuation
    cases h
    obtain ⟨hfolds, hends⟩ := hkinds kind (punctuation?_kind hpunctuation)
    refine ⟨hfolds, ?_⟩
    intro text
    show text.head?.any kind.goesOn = false
    rw [hends]
    cases text <;> rfl
  · cases h

theorem kind_stringEnd {body rest : List Char} {t : Token}
    (h : .ok t ∈ (stringEnd p body rest).found) : t.kind = .string := by
  unfold stringEnd at h
  split at h
  · cases List.mem_singleton.mp h
  · split at h
    · cases List.mem_singleton.mp h
      rfl
    · cases List.mem_singleton.mp h

/-- A word goes in front of a cut. -/
theorem Cut.exists_word {word left : List Char} {later : List Place}
    (hlater : Cut (p.afterAll word) left later) (hstart : word.head?.any isWordStart)
    (hparts : word.tail.all isWordPart) (hend : left.head?.any isWordPart = false) :
    ∃ places, places.map Place.token = [wordToken p word] ++ later.map Place.token ∧
      Cut p (word ++ left) places := by
  refine ⟨_, ?_, .word hstart hparts hend hlater⟩
  rw [List.map_cons, map_token_shift]
  rfl

/-- A token that is no word goes in front of a cut. -/
theorem Cut.exists_other {t : Token} {taken left : List Char} {later : List Place}
    (hlater : Cut (p.afterAll taken) left later) (ht : t.StandsAt p taken)
    (hwell : t.toLexeme.WellFormed) (hkind : t.kind.foldsCase = false)
    (hend : left.head?.any t.kind.goesOn = false) :
    ∃ places, places.map Place.token = [t] ++ later.map Place.token ∧
      Cut p (taken ++ left) places := by
  refine ⟨_, ?_, .other ht hwell hkind hend hlater⟩
  rw [List.map_cons, map_token_shift]
  rfl

/-- A match without faults goes in front of a cut of what it leaves. -/
theorem exists_cut_munch {c : Char} {text : List Char} {tokens : List Token} {later : List Place}
    (h : (munch p c text).found = tokens.map .ok)
    (hlater : Cut (p.afterAll (munch p c text).taken) (munch p c text).left later) :
    ∃ places, places.map Place.token = tokens ++ later.map Place.token ∧
      Cut p ((munch p c text).taken ++ (munch p c text).left) places := by
  have hwell := wellFormed_munch h
  revert h hlater
  refine munch_cases (P := fun m => m.found = tokens.map .ok →
    Cut (p.afterAll m.taken) m.left later →
    ∃ places, places.map Place.token = tokens ++ later.map Place.token ∧
      Cut p (m.taken ++ m.left) places) ?_ ?_ ?_ ?_ ?_ ?_
  · intro hblank h hlater
    rw [List.map_eq_nil_iff.mp h.symm]
    exact ⟨_, map_token_shift 1 later, .blank hblank hlater⟩
  · intro _ hc h hlater
    obtain ⟨t, rfl, ht⟩ := List.map_eq_singleton_iff.mp h.symm
    rw [Except.ok.inj ht]
    exact hlater.exists_word hc List.all_takeWhile (head?_any_dropWhile isWordPart text)
  · intro _ _ h hlater
    obtain ⟨t, rfl, ht⟩ := List.map_eq_singleton_iff.mp h.symm
    obtain ⟨hkind, hend⟩ := digitsFinding_eq_ok ht.symm
    refine hlater.exists_other (standsAt_digits ht.symm) (hwell t List.mem_cons_self) ?_ ?_
    · rw [hkind]
      rfl
    · rw [hkind]
      exact hend
  · intro _ h hlater
    obtain ⟨-, hend⟩ := eq_nil_of_errors h
    obtain ⟨t, rfl, ht⟩ := standsAt_stringEnd hend
    have hmem : .ok t ∈ [t].map (Except.ok (ε := Diagnostic)) := List.mem_cons_self
    rw [← hend] at hmem
    have hkind := kind_stringEnd hmem
    refine hlater.exists_other ht (hwell t List.mem_cons_self) ?_ ?_
    · rw [hkind]
      rfl
    · rw [hkind]
      exact Option.any_false
  · intro _ _ h hlater
    obtain ⟨t, rfl, ht⟩ := List.map_eq_singleton_iff.mp h.symm
    have hkind := kind_operatorFinding ht.symm
    refine hlater.exists_other (standsAt_operator ht.symm) (hwell t List.mem_cons_self) ?_ ?_
    · rw [hkind]
      rfl
    · rw [hkind]
      exact head?_any_dropWhile isOperatorChar text
  · intro _ _ h hlater
    obtain ⟨t, rfl, ht⟩ := List.map_eq_singleton_iff.mp h.symm
    obtain ⟨hfolds, hend⟩ := kind_singleFinding ht.symm
    exact hlater.exists_other (standsAt_single ht.symm) (hwell t List.mem_cons_self) hfolds
      (hend text)

end Munch

/-- A text whose findings are tokens is cut into them. -/
theorem exists_cut {p : Position} {text : List Char} {tokens : List Token}
    (h : findings p text = tokens.map .ok) :
    ∃ places, places.map Place.token = tokens ∧ Cut p text places := by
  fun_induction findings p text generalizing tokens with
  | case1 p =>
    rw [List.map_eq_nil_iff.mp h.symm]
    exact ⟨[], rfl, .nil p⟩
  | case2 p c text m =>
    rename_i ih
    obtain ⟨us, vs, rfl, hfound, hlater⟩ := List.append_eq_map_iff.mp h
    obtain ⟨later, rfl, hcut⟩ := ih hlater.symm
    rw [← taken_append_left p c text]
    exact exists_cut_munch hfound.symm hcut

/-! ## How tokens begin -/

/-- A token that is no keyword is written as its lexeme is spelled. -/
theorem Token.WrittenAs.spelling {t : Token} {written : List Char} (h : t.WrittenAs written)
    (hkeyword : t.kind ≠ .keyword) : written = t.toLexeme.spelling := by
  show written = if t.kind = .string then '"' :: (t.lexeme.toList ++ ['"']) else t.lexeme.toList
  unfold WrittenAs at h
  split at h
  · exact absurd ‹_› hkeyword
  · rename_i hstring
    rw [h, if_pos hstring]
  · rename_i hstring
    rw [h, if_neg hstring]

theorem Token.WrittenAs.inCapitals {t : Token} {written : List Char} (h : t.WrittenAs written)
    (hkeyword : t.kind = .keyword) : Text.inCapitals (String.ofList written) = t.lexeme := by
  unfold WrittenAs at h
  rwa [hkeyword] at h

/-- A spelling does not begin with a blank. -/
theorem Lexeme.WellFormed.exists_head {l : Lexeme} (h : l.WellFormed) :
    ∃ c rest, l.spelling = c :: rest ∧ ¬ Text.isBlank c := by
  have hword : ∀ {word : List Char}, word.head?.any isWordStart →
      ∃ c rest, word = c :: rest ∧ ¬ Text.isBlank c := by
    intro word hstart
    cases word with
    | nil => cases hstart
    | cons c rest => exact ⟨c, rest, rfl, fun hc => not_isWordStart_of_isBlank hc hstart⟩
  cases h with
  | keyword word => exact hword (isWord_spelling word).1
  | identifier hname => exact hword hname.start
  | @number digits hne hdigits _ =>
    obtain ⟨c, rest, hhead⟩ := List.exists_cons_of_ne_nil hne
    have hc : c.isDigit := List.all_eq_true.mp hdigits c (by rw [hhead]; exact List.mem_cons_self)
    exact ⟨c, rest, hhead, not_isBlank_of_isDigit hc⟩
  | string _ => exact ⟨'"', _, rfl, by decide⟩
  | @operator symbol hmem =>
    have hne : ∀ symbol ∈ operators, symbol.toList ≠ [] := by decide
    obtain ⟨c, rest, hhead⟩ := List.exists_cons_of_ne_nil (hne symbol hmem)
    have hc : isOperatorChar c :=
      isOperatorChar_of_mem_operators hmem (by rw [hhead]; exact List.mem_cons_self)
    exact ⟨c, rest, hhead, (isSign_iff.mp (isSign_of_isOperatorChar hc).1).1⟩
  | @punctuation c kind hc =>
    refine ⟨c, [], ?_, (isSign_iff.mp (isSign_of_punctuation? hc).1).1⟩
    rw [spelling, if_neg (kind_of_punctuation? hc).2]
    exact String.toList_ofList

/-- Blanks stand for themselves in capitals. -/
theorem capitals_of_isBlank {c : Char} (h : Text.isBlank c) : Text.capitals c = [c] := by
  have hall : Text.blankRanges.all fun r => (List.range' r.1 (r.2 + 1 - r.1)).all fun n =>
      Text.capitals (Char.ofNat n) = [Char.ofNat n] := by
    decide
  have hc := of_inRanges hall h
  rw [Char.ofNat_toNat] at hc
  exact of_decide_eq_true hc

/-- What a token is written with does not begin with a blank. -/
theorem Token.WrittenAs.exists_head {t : Token} {written : List Char} (h : t.WrittenAs written)
    (hwell : t.toLexeme.WellFormed) : ∃ c rest, written = c :: rest ∧ ¬ Text.isBlank c := by
  obtain ⟨c, rest, hhead, hc⟩ := hwell.exists_head
  by_cases hkeyword : t.kind = .keyword
  · have hcapitals : written.flatMap Text.capitals = c :: rest := by
      have hlexeme : t.lexeme.toList = c :: rest := by
        have hstring : t.toLexeme.kind ≠ .string := by
          show t.kind ≠ .string
          rw [hkeyword]
          decide
        rw [← hhead, Lexeme.spelling, if_neg hstring]
        rfl
      rw [← hlexeme, ← h.inCapitals hkeyword, Text.inCapitals, String.toList_ofList,
        String.toList_ofList]
    cases written with
    | nil => cases hcapitals
    | cons d more =>
      refine ⟨d, more, rfl, ?_⟩
      intro hd
      rw [List.flatMap_cons, capitals_of_isBlank hd] at hcapitals
      rw [(List.cons.inj hcapitals).1] at hd
      exact hc hd
  · exact ⟨c, rest, (h.spelling hkeyword).trans hhead, hc⟩

/-! ## From cuts to findings -/

namespace Cut

variable {p : Position} {text : List Char} {places : List Place}

theorem findings (h : Cut p text places) :
    findings p text = (places.map Place.token).map .ok := by
  induction h with
  | nil p => exact findings_nil p
  | blank hc _ ih => rw [findings_blank hc, map_token_shift, ih]
  | word hstart hparts hend _ ih =>
    rw [findings_word hstart hparts hend, List.map_cons, map_token_shift, List.map_cons, ih]
  | @other p t written text places ht hwell hkind hend _ ih =>
    have hkeyword : t.kind ≠ .keyword := (TokenKind.ne_of_foldsCase hkind).1
    have htoken : t.toLexeme.token p = t := by
      rw [← ht.position]
      rfl
    have hfound := findings_spelling (p := p) hwell hend
    rw [← ht.written.spelling hkeyword, htoken] at hfound
    rw [hfound, List.map_cons, map_token_shift, List.map_cons, ih]

theorem laid (h : Cut p text places) : Laid p text places := by
  induction h with
  | nil p => exact laid_nil p
  | blank hc _ ih => exact ih.cons_blank hc
  | @word p word _ _ hstart _ _ _ ih =>
    have hne : word ≠ [] := by
      intro hnil
      rw [hnil] at hstart
      cases hstart
    obtain ⟨hposition, hwritten⟩ := standsAt_wordToken p word
    exact ih.cons_token hne hposition hwritten
  | other ht hwell _ _ _ ih =>
    obtain ⟨c, rest, rfl, -⟩ := ht.written.exists_head hwell
    exact ih.cons_token (List.cons_ne_nil c rest) ht.position ht.written

end Cut

/-! ## The places of tokens -/

theorem capitals_ne_nil (c : Char) : Text.capitals c ≠ [] := by
  unfold Text.capitals
  split
  · exact List.cons_ne_nil _ _
  · split <;> exact List.cons_ne_nil _ _

/-- A token is written with one beginning of a text at most. -/
theorem Token.WrittenAs.unique {t : Token} {us vs text : List Char} (hu : t.WrittenAs us)
    (hv : t.WrittenAs vs) (hus : us <+: text) (hvs : vs <+: text) : us = vs := by
  have hcapitals : ∀ {xs ys : List Char}, xs <+: ys →
      Text.inCapitals (String.ofList xs) = Text.inCapitals (String.ofList ys) → xs = ys := by
    intro xs ys hbegins h
    obtain ⟨more, rfl⟩ := hbegins
    have hmore : more.flatMap Text.capitals = [] := by
      have hlists := congrArg String.toList h
      simpa [Text.inCapitals] using hlists
    cases more with
    | nil => exact (List.append_nil xs).symm
    | cons c more =>
      rw [List.flatMap_cons] at hmore
      exact absurd (List.append_eq_nil_iff.mp hmore).1 (capitals_ne_nil c)
  by_cases hkeyword : t.kind = .keyword
  · have hsame := (hu.inCapitals hkeyword).trans (hv.inCapitals hkeyword).symm
    rcases List.prefix_or_prefix_of_prefix hus hvs with hbegins | hbegins
    · exact hcapitals hbegins hsame
    · exact (hcapitals hbegins hsame.symm).symm
  · exact (hu.spelling hkeyword).trans (hv.spelling hkeyword).symm

/-- Tokens are at these places of a text, behind some offset of it. -/
structure LaidFrom (offset : Nat) (text : List Char) (places : List Place) : Prop where
  start : ∀ x ∈ places, offset ≤ x.start
  written : ∀ x ∈ places, x.written <+: text.drop x.start ∧ x.token.WrittenAs x.written ∧
    x.token.toLexeme.WellFormed
  inOrder : places.Pairwise fun x y => x.stop ≤ y.start
  blank : ∀ i c, offset ≤ i → text[i]? = some c →
    Text.isBlank c ∨ ∃ x ∈ places, x.start ≤ i ∧ i < x.stop

namespace LaidFrom

variable {offset : Nat} {text : List Char} {x y : Place} {places places' : List Place}

/-- Behind the first place are the others. -/
theorem tail (h : LaidFrom offset text (x :: places)) : LaidFrom x.stop text places where
  start y hy := (List.pairwise_cons.mp h.inOrder).1 y hy
  written y hy := h.written y (List.mem_cons_of_mem x hy)
  inOrder := (List.pairwise_cons.mp h.inOrder).2
  blank i c hi hc := by
    have hfirst : offset ≤ x.stop :=
      Nat.le_trans (h.start x List.mem_cons_self) (Nat.le_add_right _ _)
    rcases h.blank i c (Nat.le_trans hfirst hi) hc with hblank | ⟨y, hy, hstart, hstop⟩
    · exact Or.inl hblank
    · rcases List.mem_cons.mp hy with rfl | hy
      · exact absurd hi (Nat.not_le_of_lt hstop)
      · exact Or.inr ⟨y, hy, hstart, hstop⟩

/-- A character at the start of a token is not blank. -/
theorem exists_getElem?_start (h : LaidFrom offset text (x :: places)) :
    ∃ c, text[x.start]? = some c ∧ ¬ Text.isBlank c := by
  obtain ⟨hbegins, hwritten, hwell⟩ := h.written x List.mem_cons_self
  obtain ⟨c, rest, hhead, hc⟩ := hwritten.exists_head hwell
  refine ⟨c, ?_, hc⟩
  rw [hhead] at hbegins
  obtain ⟨more, hmore⟩ := hbegins
  rw [← Nat.add_zero x.start, ← List.getElem?_drop, ← hmore]
  rfl

/-- The first token starts at the first character that is not blank. -/
theorem start_le (h : LaidFrom offset text (x :: places)) {i : Nat} {c : Char} (hi : offset ≤ i)
    (hc : text[i]? = some c) (hblank : ¬ Text.isBlank c) : x.start ≤ i := by
  rcases h.blank i c hi hc with h' | ⟨y, hy, hstart, -⟩
  · exact absurd h' hblank
  · rcases List.mem_cons.mp hy with rfl | hy
    · exact hstart
    · have hle := (List.pairwise_cons.mp h.inOrder).1 y hy
      unfold Place.stop at hle
      omega

theorem unique (h : LaidFrom offset text places) (h' : LaidFrom offset text places')
    (htokens : places.map Place.token = places'.map Place.token) : places = places' := by
  induction places generalizing offset places' with
  | nil => exact (List.map_eq_nil_iff.mp htokens.symm).symm
  | cons x places ih =>
    cases places' with
    | nil => cases htokens
    | cons y places' =>
      obtain ⟨htoken, hlater⟩ := List.cons.inj htokens
      have hstart : x.start = y.start := by
        obtain ⟨c, hx, hc⟩ := h.exists_getElem?_start
        obtain ⟨d, hy, hd⟩ := h'.exists_getElem?_start
        refine Nat.le_antisymm ?_ ?_
        · exact h.start_le (h'.start y List.mem_cons_self) hy hd
        · exact h'.start_le (h.start x List.mem_cons_self) hx hc
      have hwritten : x.written = y.written := by
        obtain ⟨hbegins, hx, -⟩ := h.written x List.mem_cons_self
        obtain ⟨hbegins', hy, -⟩ := h'.written y List.mem_cons_self
        rw [← htoken] at hy
        rw [← hstart] at hbegins'
        exact hx.unique hy hbegins hbegins'
      have hplace : x = y := by
        calc x = ⟨x.start, x.written, x.token⟩ := rfl
          _ = ⟨y.start, y.written, y.token⟩ := by rw [hstart, hwritten, htoken]
      subst hplace
      rw [ih h.tail h'.tail hlater]

end LaidFrom

/-- The places of well-formed tokens in a text are determined by the tokens. -/
theorem Laid.unique {p : Position} {text : List Char} {places places' : List Place}
    (h : Laid p text places) (h' : Laid p text places')
    (hwell : ∀ t ∈ places.map Place.token, t.toLexeme.WellFormed)
    (htokens : places.map Place.token = places'.map Place.token) : places = places' := by
  have hfrom : ∀ {xs : List Place}, Laid p text xs →
      (∀ t ∈ xs.map Place.token, t.toLexeme.WellFormed) → LaidFrom 0 text xs := by
    intro xs hxs hwell
    refine ⟨fun x _ => Nat.zero_le x.start, ?_, hxs.inOrder, fun i c _ => hxs.blank i c⟩
    intro x hx
    obtain ⟨-, hbegins, hwritten⟩ := hxs.written x hx
    exact ⟨hbegins, hwritten, hwell x.token (List.mem_map_of_mem hx)⟩
  exact (hfrom h hwell).unique (hfrom h' (htokens ▸ hwell)) htokens

/-- Where the tokens of a text are, there it is cut. -/
theorem Laid.cut {p : Position} {text : List Char} {places : List Place}
    (h : Laid p text places) (hfindings : findings p text = (places.map Place.token).map .ok) :
    Cut p text places := by
  obtain ⟨places', htokens, hcut⟩ := exists_cut hfindings
  rw [h.unique hcut.laid (wellFormed_findings hfindings) htokens.symm]
  exact hcut

end SqlForest
