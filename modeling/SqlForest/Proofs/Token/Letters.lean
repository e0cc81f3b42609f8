import SqlForest.Proofs.Token.Cut

/-!
# Letters in another case

Keywords and names may be written in any case.  A text in which letters inside of words are changed
to another case (`Recased`) is cut at the same places into the same tokens, but that its names are
written as they stand in it (`TokenStream.ofText_recased`).  For upper and lower case of a letter
belong to the same classes of characters and have the same capitals.
-/

namespace SqlForest

/-- The texts are the same but for the case of letters. -/
def SameLetters (us vs : List Char) : Prop :=
  us.map Char.toLower = vs.map Char.toLower

/-- The texts differ at most in the case of letters that are in keywords or in names. -/
structure Recased (places : List Place) (text text' : List Char) : Prop where
  letters : SameLetters text' text
  elsewhere : ∀ i, (∀ x ∈ places, x.token.kind.foldsCase → ¬ (x.start ≤ i ∧ i < x.stop)) →
    text'[i]? = text[i]?

namespace Place

/-- What stands at the place in another text. -/
def standing (text : List Char) (x : Place) : List Char :=
  (text.drop x.start).take x.written.length

/-- The place in another text.  A name is what stands there. -/
def recast (text : List Char) (x : Place) : Place where
  start := x.start
  written := x.standing text
  token := if x.token.kind = .identifier then
      { x.token with lexeme := String.ofList (x.standing text) }
    else x.token

end Place

/-! ## Letters -/

section Letters

/-- What does not tell an upper case letter from its lower case does not see case at all. -/
theorem apply_toLower {α : Type} {f : Char → α}
    (hall : ∀ n ∈ List.range' 65 26, f (Char.ofNat n).toLower = f (Char.ofNat n)) (c : Char) :
    f c.toLower = f c := by
  by_cases hupper : c.val ≥ 'A'.val ∧ c.val ≤ 'Z'.val
  · have hmem : c.toNat ∈ List.range' 65 26 := by
      rw [List.mem_range'_1]
      have hlow : 'A'.val.toNat ≤ c.val.toNat := hupper.1
      have hhigh : c.val.toNat ≤ 'Z'.val.toNat := hupper.2
      have hA : 'A'.val.toNat = 65 := rfl
      have hZ : 'Z'.val.toNat = 90 := rfl
      show 65 ≤ c.val.toNat ∧ c.val.toNat < 65 + 26
      omega
    have hc := hall c.toNat hmem
    rwa [Char.ofNat_toNat] at hc
  · exact congrArg f (dif_neg hupper)

theorem isWordStart_toLower (c : Char) : isWordStart c.toLower = isWordStart c :=
  apply_toLower (by decide) c

theorem isWordPart_toLower (c : Char) : isWordPart c.toLower = isWordPart c :=
  apply_toLower (by decide) c

theorem goesOn_toLower (kind : TokenKind) (c : Char) : kind.goesOn c.toLower = kind.goesOn c := by
  refine apply_toLower ?_ c
  cases kind <;> decide

theorem capitals_toLower (c : Char) : Text.capitals c.toLower = Text.capitals c :=
  apply_toLower (by decide) c

theorem after_toLower (p : Position) (c : Char) : p.after c.toLower = p.after c := by
  have hnewline : decide (c.toLower = '\n') = decide (c = '\n') :=
    apply_toLower (f := fun d => decide (d = '\n')) (by decide) c
  have hiff : c.toLower = '\n' ↔ c = '\n' := decide_eq_decide.mp hnewline
  unfold Position.after
  simp only [hiff]

namespace SameLetters

variable {us vs : List Char}

theorem length_eq (h : SameLetters us vs) : us.length = vs.length := by
  simpa using congrArg List.length h

/-- Such texts are the same to whatever does not see case. -/
theorem map_eq {α : Type} {f : Char → α} (hf : ∀ c, f c.toLower = f c) (h : SameLetters us vs) :
    us.map f = vs.map f := by
  have hmap : ∀ text : List Char, (text.map Char.toLower).map f = text.map f := by
    intro text
    rw [List.map_map]
    exact List.map_congr_left fun c _ => hf c
  rw [← hmap us, h, hmap vs]

theorem all_eq {P : Char → Bool} (hP : ∀ c, P c.toLower = P c) (h : SameLetters us vs) :
    us.all P = vs.all P := by
  have hall : ∀ text : List Char, text.all P = (text.map P).all id := by
    intro text
    rw [List.all_map]
    rfl
  rw [hall, hall, h.map_eq hP]

theorem head?_any_eq {P : Char → Bool} (hP : ∀ c, P c.toLower = P c) (h : SameLetters us vs) :
    us.head?.any P = vs.head?.any P := by
  have hany : ∀ text : List Char, text.head?.any P = (text.map P).head?.any id := by
    intro text
    cases text <;> rfl
  rw [hany, hany, h.map_eq hP]

theorem exists_append {text front : List Char} (h : SameLetters text (front ++ vs)) :
    ∃ front' text', text = front' ++ text' ∧ SameLetters front' front ∧ SameLetters text' vs := by
  rw [SameLetters, List.map_append] at h
  exact List.map_eq_append_iff.mp h

theorem tail (h : SameLetters us vs) : SameLetters us.tail vs.tail := by
  unfold SameLetters
  rw [List.map_tail, List.map_tail, h]

theorem afterAll_eq (h : SameLetters us vs) (p : Position) : p.afterAll us = p.afterAll vs := by
  have hfold : ∀ text : List Char, p.afterAll text = p.afterAll (text.map Char.toLower) := by
    intro text
    rw [Position.afterAll, Position.afterAll, List.foldl_map]
    simp only [after_toLower]
  rw [hfold, hfold vs, h]

theorem inCapitals_eq (h : SameLetters us vs) :
    Text.inCapitals (String.ofList us) = Text.inCapitals (String.ofList vs) := by
  rw [Text.inCapitals, Text.inCapitals, String.toList_ofList, String.toList_ofList,
    List.flatMap_def, List.flatMap_def, h.map_eq capitals_toLower]

/-- A word is the same keyword in any case. -/
theorem ofWord?_eq (h : SameLetters us vs) :
    Keyword.ofWord? (String.ofList us) = Keyword.ofWord? (String.ofList vs) := by
  rw [Keyword.ofWord?, Keyword.ofWord?, h.inCapitals_eq]

end SameLetters

end Letters

/-! ## Recased texts -/

/-- What stands in front of a place is apart from it. -/
theorem Recased.split {xs places : List Place} {front text other : List Char}
    (hxs : ∀ x ∈ xs, x.stop ≤ front.length)
    (h : Recased (xs ++ places.map (Place.shift front.length)) (front ++ text) other) :
    ∃ front' text', other = front' ++ text' ∧ SameLetters front' front ∧
      ((∀ x ∈ xs, x.token.kind.foldsCase = false) → front' = front) ∧
      Recased places text text' := by
  obtain ⟨front', text', rfl, hfront, htext⟩ := h.letters.exists_append
  have hlength := hfront.length_eq
  refine ⟨front', text', rfl, hfront, ?_, htext, ?_⟩
  · intro hfolds
    refine List.ext_getElem? ?_
    intro i
    by_cases hi : i < front.length
    · have hoff : ∀ x ∈ xs ++ places.map (Place.shift front.length), x.token.kind.foldsCase →
          ¬ (x.start ≤ i ∧ i < x.stop) := by
        intro x hx hkind
        rcases List.mem_append.mp hx with hx | hx
        · rw [hfolds x hx] at hkind
          cases hkind
        · obtain ⟨y, -, rfl⟩ := List.mem_map.mp hx
          simp only [Place.shift]
          omega
      have hsame := h.elsewhere i hoff
      rwa [List.getElem?_append_left hi, List.getElem?_append_left (by omega)] at hsame
    · rw [List.getElem?_eq_none (by omega), List.getElem?_eq_none (by omega)]
  · intro i hi
    have hoff : ∀ x ∈ xs ++ places.map (Place.shift front.length), x.token.kind.foldsCase →
        ¬ (x.start ≤ front.length + i ∧ front.length + i < x.stop) := by
      intro x hx hkind
      rcases List.mem_append.mp hx with hx | hx
      · have hle := hxs x hx
        omega
      · obtain ⟨y, hy, rfl⟩ := List.mem_map.mp hx
        have hnot := hi y hy hkind
        simp only [Place.stop, Place.shift] at hnot ⊢
        omega
    have hsame := h.elsewhere (front.length + i) hoff
    rw [List.getElem?_append_right (Nat.le_add_right _ _)] at hsame
    rw [← hlength, List.getElem?_append_right (Nat.le_add_right _ _)] at hsame
    simpa [hlength] using hsame

namespace Place

/-- A place behind some characters is that place in what is behind them. -/
theorem map_recast_shift {front text : List Char} {count : Nat} (hcount : front.length = count)
    (places : List Place) :
    (places.map (shift count)).map (recast (front ++ text)) =
      (places.map (recast text)).map (shift count) := by
  rw [List.map_map, List.map_map]
  refine List.map_congr_left ?_
  intro x _
  have hstanding : (x.shift count).standing (front ++ text) = x.standing text := by
    show ((front ++ text).drop (count + x.start)).take x.written.length = _
    rw [← hcount, List.drop_length_add_append]
    rfl
  show Place.mk _ ((x.shift count).standing (front ++ text)) (if x.token.kind = .identifier then
    { x.token with lexeme := String.ofList ((x.shift count).standing (front ++ text)) }
    else x.token) = _
  rw [hstanding]
  rfl

/-- The place of a token at the start of another text. -/
theorem recast_zero {t : Token} {written written' : List Char}
    (hlength : written'.length = written.length) (text : List Char) :
    recast (written' ++ text) ⟨0, written, t⟩ =
      ⟨0, written', if t.kind = .identifier then { t with lexeme := String.ofList written' }
        else t⟩ := by
  have hstanding : standing (written' ++ text) ⟨0, written, t⟩ = written' := by
    show (written' ++ text).take written.length = written'
    rw [← hlength, List.take_left]
  show Place.mk 0 (standing (written' ++ text) ⟨0, written, t⟩) _ = _
  rw [hstanding]

end Place

/-- A recased text is cut at the same places. -/
theorem Cut.recased {p : Position} {text text' : List Char} {places : List Place}
    (h : Cut p text places) (hrecased : Recased places text text') :
    Cut p text' (places.map (Place.recast text')) := by
  induction h generalizing text' with
  | nil p =>
    have hnil : text' = [] := List.map_eq_nil_iff.mp hrecased.letters
    rw [hnil]
    exact .nil p
  | @blank p c text places hc h ih =>
    have hsplit : Recased ([] ++ places.map (Place.shift [c].length)) ([c] ++ text) text' :=
      hrecased
    obtain ⟨front', text', rfl, -, hfront, htext⟩ := hsplit.split (by simp)
    obtain rfl := hfront (by simp)
    rw [Place.map_recast_shift (List.length_singleton (a := c))]
    exact .blank hc (ih htext)
  | @word p word text places hstart hparts hend h ih =>
    have hfirst : ∀ x ∈ [Place.mk 0 word (wordToken p word)], x.stop ≤ word.length := by
      simp [Place.stop]
    obtain ⟨word', text', rfl, hword, -, htext⟩ := Recased.split hfirst hrecased
    have hlength := hword.length_eq
    have htoken : wordToken p word' = (if (wordToken p word).kind = .identifier then
        { wordToken p word with lexeme := String.ofList word' } else wordToken p word) := by
      unfold wordToken
      rw [hword.ofWord?_eq]
      cases Keyword.ofWord? (String.ofList word) <;> rfl
    rw [List.map_cons, Place.map_recast_shift hlength, Place.recast_zero hlength, ← htoken,
      ← hlength]
    refine .word ?_ ?_ ?_ ?_
    · rwa [hword.head?_any_eq isWordStart_toLower]
    · rwa [hword.tail.all_eq isWordPart_toLower]
    · rwa [htext.letters.head?_any_eq isWordPart_toLower]
    · rw [hword.afterAll_eq]
      exact ih htext
  | @other p t written text places ht hwell hkind hend h ih =>
    have hfirst : ∀ x ∈ [Place.mk 0 written t], x.stop ≤ written.length := by
      simp [Place.stop]
    obtain ⟨written', text', rfl, -, hwritten, htext⟩ := Recased.split hfirst hrecased
    obtain rfl := hwritten (by simpa using hkind)
    have hidentifier : t.kind ≠ .identifier := (TokenKind.ne_of_foldsCase hkind).2
    rw [List.map_cons, Place.map_recast_shift rfl, Place.recast_zero rfl, if_neg hidentifier]
    refine .other ht hwell hkind ?_ (ih htext)
    rwa [htext.letters.head?_any_eq (goesOn_toLower t.kind)]

/-! ## Tokens of recased texts -/

namespace TokenStream

variable {source text text' : String} {s : TokenStream} {places : List Place}

/-- A recased text has the same tokens at the same positions, but that names are what stands in
their places. -/
theorem ofText_recased (hs : ofText source text = .ok s)
    (hplaces : places.map Place.token = s.tokens)
    (hlaid : Laid (Position.origin source) text.toList places)
    (h : Recased places text.toList text'.toList) :
    ∃ s', ofText source text' = .ok s' ∧ s'.finish = s.finish ∧
      s'.tokens = places.map fun x => (x.recast text'.toList).token := by
  obtain ⟨hfindings, hfinish⟩ := ofText_eq_ok.mp hs
  rw [← hplaces] at hfindings
  have hcut := (hlaid.cut hfindings).recased h
  have hkinds : ∀ t ∈ (places.map (Place.recast text'.toList)).map Place.token,
      t.kind ≠ .endOfInput := by
    intro t ht
    exact (wellFormed_findings hcut.findings t ht).kind_ne_endOfInput
  refine ⟨⟨_, s.finish, hkinds, s.finish_kind⟩, ofText_eq_ok.mpr ⟨hcut.findings, ?_⟩, rfl, ?_⟩
  · rw [hfinish, finishOf, finishOf, h.letters.afterAll_eq]
  · exact List.map_map

end TokenStream

end SqlForest
