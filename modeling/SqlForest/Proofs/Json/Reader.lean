import SqlForest.Proofs.Json.Grammar
import SqlForest.Proofs.Token.Lexeme

/-!
# Reading JSON

`Json.ofText?` reads a value by descending into it: what a bracket opens is read by the reader for
one level less, so as many levels as there are characters are always enough.  It reads just what the
grammar says (`Json.ofText?_eq_some_iff`).  Hence no text denotes two values
(`Json.Denotes.unique`).
-/

namespace SqlForest.Json

/-- A character of a word or of a number. -/
def isScalarPart (c : Char) : Bool :=
  c.isAlphanum || c = '-'

/-- What is left of a text behind the blanks that it begins with. -/
def skipBlanks (text : List Char) : List Char :=
  text.dropWhile isBlank

/-! ## Strings -/

/-- Reads the second code of a pair. -/
def secondCode? (high : Nat) : List Char → Option (Char × List Char)
  | '\\' :: 'u' :: rest =>
    (code? (rest.take 4)).bind fun low =>
      if IsHighSurrogate high ∧ IsLowSurrogate low then some (ofSurrogates high low, rest.drop 4)
      else none
  | _ => none

/-- Reads one character of a string. -/
def char? : List Char → Option (Char × List Char)
  | '\\' :: 'u' :: rest =>
    (code? (rest.take 4)).bind fun n =>
      if n.isValidChar then some (Char.ofNat n, rest.drop 4) else secondCode? n (rest.drop 4)
  | '\\' :: mark :: rest => (shortEscapes.lookup mark).map fun c => (c, rest)
  | c :: rest => if isPlain c then some (c, rest) else none
  | [] => none

/-- Reads less than `n` characters of a string and the quote behind them. -/
def chars? : Nat → List Char → Option (List Char × List Char)
  | 0, _ => none
  | n + 1, text =>
    if text.head? = some '"' then some ([], text.tail)
    else (char? text).bind fun (c, rest) => (chars? n rest).map fun (cs, rest) => (c :: cs, rest)

/-! ## Values -/

section Items

variable {α : Type} (item? : List Char → Option (α × List Char)) (closing : Char)

/-- Reads at most `n` items with commas between them, and the bracket behind them. -/
def items? : Nat → List Char → Option (List α × List Char)
  | 0, _ => none
  | n + 1, text =>
    match item? text with
    | some (a, c :: rest) =>
      if c = ',' then (items? n rest).map fun (as, rest) => (a :: as, rest)
      else if c = closing then some ([a], rest)
      else none
    | _ => none

/-- Reads a bracket with nothing but blanks in front of it. -/
def noItems? (text : List Char) : Option (List α × List Char) :=
  if (skipBlanks text).head? = some closing then some ([], (skipBlanks text).tail) else none

/-- Reads any number of items and the bracket behind them. -/
def bracketed? (text : List Char) : Option (List α × List Char) :=
  (items? item? closing text.length text).or (noItems? closing text)

end Items

/-- Reads a member of an object. -/
def member? (element? : List Char → Option (Json × List Char)) (text : List Char) :
    Option ((String × Json) × List Char) :=
  match element? text with
  | some (string key, c :: rest) =>
    if c = ':' then (element? rest).map fun (value, rest) => ((key, value), rest) else none
  | _ => none

/-- Reads a value that the text begins with. -/
def value? (element? : List Char → Option (Json × List Char)) :
    List Char → Option (Json × List Char)
  | '"' :: rest => (chars? rest.length rest).map fun (cs, rest) => (string (String.ofList cs), rest)
  | '[' :: rest => (bracketed? element? ']' rest).map fun (items, rest) => (array items, rest)
  | '\x7b' :: rest =>
    (bracketed? (member? element?) '\x7d' rest).map fun (members, rest) => (object members, rest)
  | text =>
    (scalar? (text.takeWhile isScalarPart)).map fun value => (value, text.dropWhile isScalarPart)

/-- Reads a value that is less than `n` levels deep, and the blanks around it. -/
def element? : Nat → List Char → Option (Json × List Char)
  | 0, _ => none
  | n + 1, text =>
    (value? (element? n) (skipBlanks text)).map fun (value, rest) => (value, skipBlanks rest)

/-- Reads a text that holds one value and nothing else. -/
def ofText? (text : String) : Option Json :=
  match element? text.toList.length text.toList with
  | some (value, []) => some value
  | _ => none

/-! ## Strings are read -/

section Strings

variable {text rest : List Char} {c : Char}

theorem length_of_code? {n : Nat} (h : code? text = some n) : text.length = 4 := by
  unfold code? at h
  split at h
  · rfl
  · cases h

theorem take_code {n : Nat} (h : code? text = some n) : (text ++ rest).take 4 = text :=
  List.take_left' (length_of_code? h)

theorem drop_code {n : Nat} (h : code? text = some n) : (text ++ rest).drop 4 = rest :=
  List.drop_left' (length_of_code? h)

theorem not_isValidChar_of_high {n : Nat} (h : IsHighSurrogate n) : ¬ n.isValidChar := by
  rintro (hlow | ⟨hhigh, -⟩)
  · exact Nat.not_lt_of_le h.1 hlow
  · exact Nat.lt_asymm hhigh (Nat.lt_trans h.2 (by decide))

theorem char?_append (h : DenotesChar text c) : char? (text ++ rest) = some (c, rest) := by
  cases h with
  | plain h =>
    have hbackslash : c ≠ '\\' := by
      rintro rfl
      exact absurd h (by decide)
    show char? (c :: rest) = _
    rw [char?]
    · rw [if_pos h]
    · intro _ heq
      exact absurd heq hbackslash
    · intro _ _ heq
      exact absurd heq hbackslash
  | @escape mark c h =>
    have hmark : mark ≠ 'u' := by
      rintro rfl
      cases h
    show char? ('\\' :: mark :: rest) = _
    rw [char?]
    · rw [h]
      rfl
    · exact hmark
  | @code digits n h hvalid =>
    show char? ('\\' :: 'u' :: (digits ++ rest)) = _
    rw [char?, take_code h, drop_code h, h, Option.bind_some, if_pos hvalid]
  | @surrogates digits digits' high low h h' hhigh hlow =>
    have htext : '\\' :: 'u' :: (digits ++ '\\' :: 'u' :: digits') ++ rest =
        '\\' :: 'u' :: (digits ++ '\\' :: 'u' :: (digits' ++ rest)) := by
      simp only [List.cons_append, List.append_assoc]
    rw [htext, char?, take_code h, drop_code h, h, Option.bind_some,
      if_neg (not_isValidChar_of_high hhigh), secondCode?, take_code h', drop_code h', h',
      Option.bind_some, if_pos ⟨hhigh, hlow⟩]

theorem head_of_denotesChar (h : DenotesChar text c) : ∃ d tail, text = d :: tail ∧ d ≠ '"' := by
  cases h with
  | plain h =>
    refine ⟨c, [], rfl, ?_⟩
    rintro rfl
    exact absurd h (by decide)
  | escape h => exact ⟨'\\', _, rfl, by decide⟩
  | code h hvalid => exact ⟨'\\', _, rfl, by decide⟩
  | surrogates h h' hhigh hlow => exact ⟨'\\', _, rfl, by decide⟩

theorem chars?_append {parts : List (List Char × Char)} (h : ∀ p ∈ parts, DenotesChar p.1 p.2)
    {n : Nat} (hn : parts.length < n) :
    chars? n ((parts.map Prod.fst).flatten ++ '"' :: rest) = some (parts.map Prod.snd, rest) := by
  induction parts generalizing n with
  | nil =>
    cases n with
    | zero => cases hn
    | succ n => rfl
  | cons p parts ih =>
    cases n with
    | zero => cases hn
    | succ n =>
      rw [List.forall_mem_cons] at h
      obtain ⟨d, tail, htext, hquote⟩ := head_of_denotesChar h.1
      rw [List.map_cons, List.flatten_cons, List.append_assoc, chars?, if_neg, char?_append h.1,
        Option.bind_some]
      · simp only [ih h.2 (Nat.lt_of_succ_lt_succ hn), Option.map_some, List.map_cons]
      · rw [htext]
        exact mt Option.some.inj hquote

theorem length_le_flatten {parts : List (List Char × Char)}
    (h : ∀ p ∈ parts, DenotesChar p.1 p.2) :
    parts.length ≤ (parts.map Prod.fst).flatten.length := by
  induction parts with
  | nil => exact Nat.le_refl 0
  | cons p parts ih =>
    rw [List.forall_mem_cons] at h
    obtain ⟨d, tail, htext, -⟩ := head_of_denotesChar h.1
    have hlength := ih h.2
    rw [List.map_cons, List.flatten_cons, List.length_append, htext, List.length_cons,
      List.length_cons]
    omega

end Strings

/-! ## Items are read -/

section Items

variable {α : Type} {item? : List Char → Option (α × List Char)} {closing : Char}
  {parts : List (List Char × α)} {rest : List Char}

theorem skipBlanks_append {blanks : List Char} (h : blanks.all isBlank) (text : List Char) :
    skipBlanks (blanks ++ text) = skipBlanks text :=
  List.dropWhile_append_of_pos (List.all_eq_true.mp h)

theorem skipBlanks_cons {c : Char} (h : isBlank c = false) (text : List Char) :
    skipBlanks (c :: text) = c :: text :=
  List.dropWhile_cons_of_neg (Bool.eq_false_iff.mp h)

theorem intercalate_comma (p p' : List Char × α) (parts : List (List Char × α)) :
    [','].intercalate ((p :: p' :: parts).map Prod.fst) ++ rest =
      p.1 ++ ',' :: ([','].intercalate ((p' :: parts).map Prod.fst) ++ rest) := by
  rw [List.map_cons, List.map_cons, List.intercalate_cons_cons]
  simp only [List.append_assoc, List.cons_append, List.nil_append]

theorem length_le_intercalate (texts : List (List Char)) :
    texts.length ≤ ([','].intercalate texts).length + 1 := by
  induction texts with
  | nil => exact Nat.zero_le _
  | cons text texts ih =>
    cases texts with
    | nil => exact Nat.succ_le_succ (Nat.zero_le _)
    | cons text' texts =>
      rw [List.intercalate_cons_cons, List.length_append, List.length_append, List.length_cons,
        List.length_singleton]
      omega

theorem length_le_of_mem_intercalate {text : List Char} {texts : List (List Char)}
    (h : text ∈ texts) : text.length ≤ ([','].intercalate texts).length := by
  induction texts with
  | nil => cases h
  | cons first texts ih =>
    cases texts with
    | nil =>
      have hsame : [','].intercalate [first] = text := by
        rw [List.mem_singleton.mp h, List.intercalate_singleton]
      exact Nat.le_of_eq (congrArg List.length hsame.symm)
    | cons text' texts =>
      rw [List.intercalate_cons_cons, List.length_append, List.length_append]
      rcases List.mem_cons.mp h with rfl | hmem
      · omega
      · have hle := ih hmem
        omega

/-- The reader takes the text for the value with the blanks behind it, whatever stands there, if
that does not go on with a word or a number. -/
def Takes (item? : List Char → Option (α × List Char)) (text : List Char) (a : α) : Prop :=
  ∀ rest : List Char, rest.head?.any isScalarPart = false →
    item? (text ++ rest) = some (a, skipBlanks rest)

/-- The character can be the bracket behind items. -/
structure IsClosing (closing : Char) : Prop where
  noBlank : isBlank closing = false
  noPart : isScalarPart closing = false
  noComma : closing ≠ ','

theorem items?_append (hclosing : IsClosing closing) (hne : parts ≠ [])
    (hitem : ∀ p ∈ parts, Takes item? p.1 p.2) {n : Nat} (hn : parts.length ≤ n) :
    items? item? closing n ([','].intercalate (parts.map Prod.fst) ++ closing :: rest) =
      some (parts.map Prod.snd, rest) := by
  induction parts generalizing n with
  | nil => exact absurd rfl hne
  | cons p parts ih =>
    rw [List.forall_mem_cons] at hitem
    cases n with
    | zero => cases hn
    | succ n =>
      cases parts with
      | nil =>
        have hlast := hitem.1 (closing :: rest) hclosing.noPart
        rw [skipBlanks_cons hclosing.noBlank] at hlast
        rw [List.map_singleton, List.map_singleton, List.intercalate_singleton, items?, hlast]
        simp only [hclosing.noComma, if_false, if_true]
      | cons p' parts =>
        have hothers := ih (List.cons_ne_nil p' parts) hitem.2 (Nat.le_of_succ_le_succ hn)
        rw [intercalate_comma, items?, hitem.1 _ rfl, skipBlanks_cons rfl]
        simp only [if_true, hothers, Option.map_some]
        rfl

theorem bracketed?_append (rest : List Char) (hclosing : IsClosing closing) (hne : parts ≠ [])
    (hitem : ∀ p ∈ parts, Takes item? p.1 p.2) :
    bracketed? item? closing ([','].intercalate (parts.map Prod.fst) ++ closing :: rest) =
      some (parts.map Prod.snd, rest) := by
  have hlength := length_le_intercalate (parts.map Prod.fst)
  rw [List.length_map] at hlength
  rw [bracketed?, items?_append hclosing hne hitem]
  · rfl
  · rw [List.length_append, List.length_cons]
    omega

theorem bracketed?_blanks (hclosing : IsClosing closing) {blanks : List Char}
    (hblanks : blanks.all isBlank) (hitem : item? (blanks ++ closing :: rest) = none) :
    bracketed? item? closing (blanks ++ closing :: rest) = some ([], rest) := by
  have hitems : ∀ n, items? item? closing n (blanks ++ closing :: rest) = none := by
    intro n
    cases n with
    | zero => rfl
    | succ n => rw [items?, hitem]
  rw [bracketed?, hitems, noItems?, skipBlanks_append hblanks, skipBlanks_cons hclosing.noBlank]
  exact if_pos rfl

end Items

/-! ## Scalars are read -/

section Scalars

variable {text rest : List Char} {value : Json} {c : Char}

theorem isScalarPart_of_isDigit (h : c.isDigit) : isScalarPart c := by
  rw [isScalarPart, Char.isAlphanum, h, Bool.or_true, Bool.true_or]

theorem isBlank_of_isScalarPart (h : isScalarPart c) : isBlank c = false := by
  rw [Bool.eq_false_iff]
  intro hblank
  simp only [isBlank, Bool.or_eq_true, decide_eq_true_eq] at hblank
  rcases hblank with ((rfl | rfl) | rfl) | rfl
  all_goals exact absurd h (by decide)

theorem parts_of_natural? {n : Nat} (h : natural? text = some n) :
    text ≠ [] ∧ text.all isScalarPart := by
  rw [natural?] at h
  split at h
  · cases h
  · rw [Integer.ofDigits?] at h
    split at h
    case isTrue hdigits =>
      refine ⟨hdigits.1, ?_⟩
      rw [List.all_eq_true]
      intro c hc
      exact isScalarPart_of_isDigit (List.all_eq_true.mp hdigits.2 c hc)
    case isFalse => cases h

theorem parts_of_numeral? {n : Int} (h : numeral? text = some n) :
    text ≠ [] ∧ text.all isScalarPart := by
  unfold numeral? at h
  split at h
  · obtain ⟨m, hdigits, -⟩ := Option.map_eq_some_iff.mp h
    refine ⟨List.cons_ne_nil _ _, ?_⟩
    rw [List.all_cons, (parts_of_natural? hdigits).2]
    rfl
  · obtain ⟨m, hdigits, -⟩ := Option.map_eq_some_iff.mp h
    exact parts_of_natural? hdigits

theorem parts_of_scalar? (h : scalar? text = some value) : text ≠ [] ∧ text.all isScalarPart := by
  rcases Option.or_eq_some_iff.mp h with hword | ⟨-, hnumber⟩
  · obtain ⟨before, behind, hwords, -⟩ := List.lookup_eq_some_iff.mp hword
    have hparts : ∀ p ∈ words, p.1 ≠ [] ∧ p.1.all isScalarPart := by decide
    refine hparts (text, value) ?_
    rw [hwords]
    exact List.mem_append_right _ List.mem_cons_self
  · obtain ⟨n, hnumeral, -⟩ := Option.map_eq_some_iff.mp hnumber
    exact parts_of_numeral? hnumeral

theorem value?_scalar (element? : List Char → Option (Json × List Char))
    (h : scalar? text = some value) (hrest : rest.head?.any isScalarPart = false) :
    value? element? (text ++ rest) = some (value, rest) := by
  obtain ⟨hne, hparts⟩ := parts_of_scalar? h
  cases text with
  | nil => exact absurd rfl hne
  | cons c text =>
    have hc : isScalarPart c := (Bool.and_eq_true_iff.mp hparts).1
    rw [List.cons_append, value?]
    · rw [← List.cons_append, takeWhile_append_of_ends hparts hrest,
        dropWhile_append_of_ends hparts hrest, h]
      rfl
    all_goals
      intro _ heq
      rw [(List.cons.inj heq).1] at hc
      exact absurd hc (by decide)

end Scalars

/-! ## Values are read -/

section Values

variable {text rest : List Char} {value : Json} {n : Nat} {c : Char}

theorem element?_blank (h : isBlank c) : element? n (c :: text) = element? n text := by
  cases n with
  | zero => rfl
  | succ n => rw [element?, element?, skipBlanks, List.dropWhile_cons_of_pos h, skipBlanks]

theorem element?_of_value? (h : value? (element? n) text = some (value, rest))
    (htext : skipBlanks text = text) :
    element? (n + 1) text = some (value, skipBlanks rest) := by
  rw [element?, htext, h]
  rfl

/-- What stands between two marks, with a text behind it. -/
theorem between_append (opening closing : Char) (inside rest : List Char) :
    opening :: (inside ++ [closing]) ++ rest = opening :: (inside ++ closing :: rest) := by
  rw [List.cons_append, List.append_assoc, List.singleton_append]

theorem element?_string {parts : List (List Char × Char)} (h : ∀ p ∈ parts, DenotesChar p.1 p.2) :
    element? (n + 1) ('"' :: ((parts.map Prod.fst).flatten ++ ['"']) ++ rest) =
      some (string (String.ofList (parts.map Prod.snd)), skipBlanks rest) := by
  refine element?_of_value? ?_ (skipBlanks_cons rfl _)
  rw [between_append, value?, chars?_append h]
  · rfl
  · have hlength := length_le_flatten h
    rw [List.length_append, List.length_cons]
    omega

theorem isClosing_bracket : IsClosing ']' :=
  ⟨rfl, rfl, by decide⟩

theorem isClosing_brace : IsClosing '\x7d' :=
  ⟨rfl, rfl, by decide⟩

/-- No value begins with a closing bracket. -/
theorem element?_closing {closing : Char} (h : closing = ']' ∨ closing = '\x7d')
    {blanks : List Char} (hblanks : blanks.all isBlank) :
    element? n (blanks ++ closing :: rest) = none := by
  cases n with
  | zero => rfl
  | succ n =>
    rw [element?, skipBlanks_append hblanks]
    rcases h with rfl | rfl
    · rw [skipBlanks_cons rfl]
      rfl
    · rw [skipBlanks_cons rfl]
      rfl

theorem element?_emptyArray {blanks : List Char} (h : blanks.all isBlank) :
    element? (n + 1) ('[' :: (blanks ++ [']']) ++ rest) = some (array [], skipBlanks rest) := by
  refine element?_of_value? ?_ (skipBlanks_cons rfl _)
  rw [between_append, value?,
    bracketed?_blanks isClosing_bracket h (element?_closing (Or.inl rfl) h)]
  rfl

theorem element?_emptyObject {blanks : List Char} (h : blanks.all isBlank) :
    element? (n + 1) ('\x7b' :: (blanks ++ ['\x7d']) ++ rest) =
      some (object [], skipBlanks rest) := by
  have hmember : member? (element? n) (blanks ++ '\x7d' :: rest) = none := by
    rw [member?, element?_closing (Or.inr rfl) h]
  refine element?_of_value? ?_ (skipBlanks_cons rfl _)
  rw [between_append, value?,
    bracketed?_blanks isClosing_brace h hmember]
  rfl

theorem element?_array {items : List (List Char × Json)} (hne : items ≠ [])
    (h : ∀ item ∈ items, Takes (element? n) item.1 item.2) :
    element? (n + 1) ('[' :: ([','].intercalate (items.map Prod.fst) ++ [']']) ++ rest) =
      some (array (items.map Prod.snd), skipBlanks rest) := by
  refine element?_of_value? ?_ (skipBlanks_cons rfl _)
  rw [between_append, value?,
    bracketed?_append rest isClosing_bracket hne h]
  rfl

theorem takes_member {m : Member} (hkey : Takes (element? n) m.keyText (string m.key))
    (hvalue : Takes (element? n) m.valueText m.value) :
    Takes (member? (element? n)) m.text (m.key, m.value) := by
  intro rest hrest
  rw [Member.text, List.append_assoc, List.cons_append, member?, hkey _ rfl, skipBlanks_cons rfl]
  simp only [if_true, hvalue rest hrest, Option.map_some]

theorem element?_object {members : List Member} (hne : members ≠ [])
    (hkeys : ∀ m ∈ members, Takes (element? n) m.keyText (string m.key))
    (hvalues : ∀ m ∈ members, Takes (element? n) m.valueText m.value) :
    element? (n + 1) ('\x7b' :: ([','].intercalate (members.map Member.text) ++ ['\x7d']) ++ rest) =
      some (object (members.map fun m => (m.key, m.value)), skipBlanks rest) := by
  have hparts : ∀ p ∈ members.map fun m => (m.text, (m.key, m.value)),
      Takes (member? (element? n)) p.1 p.2 := by
    intro p hp
    obtain ⟨m, hm, rfl⟩ := List.mem_map.mp hp
    exact takes_member (hkeys m hm) (hvalues m hm)
  have hread :=
    bracketed?_append rest isClosing_brace (mt List.map_eq_nil_iff.mp hne) hparts
  rw [List.map_map, List.map_map] at hread
  refine element?_of_value? ?_ (skipBlanks_cons rfl _)
  rw [between_append, value?]
  exact congrArg (Option.map _) hread

/-- A value behind which no word or number goes on is read with the blanks behind it. -/
theorem takes_of_denotes (h : Denotes text value) (hn : text.length ≤ n) :
    Takes (element? n) text value := by
  induction h generalizing n with
  | @blankBefore c text value hblank h ih =>
    intro rest hrest
    rw [List.cons_append, element?_blank hblank]
    exact ih (Nat.le_of_succ_le hn) rest hrest
  | @blankBehind c text value hblank h ih =>
    intro rest hrest
    have hc : (c :: rest).head?.any isScalarPart = false := by
      rw [Bool.eq_false_iff]
      intro hpart
      rw [isBlank_of_isScalarPart hpart] at hblank
      cases hblank
    rw [List.length_append] at hn
    rw [List.append_assoc, List.singleton_append, ih (Nat.le_of_succ_le hn) _ hc, skipBlanks,
      List.dropWhile_cons_of_pos hblank]
    rfl
  | @scalar text value h =>
    intro rest hrest
    obtain ⟨hne, hparts⟩ := parts_of_scalar? h
    cases n with
    | zero => exact absurd (List.length_eq_zero_iff.mp (Nat.le_zero.mp hn)) hne
    | succ n =>
      refine element?_of_value? (value?_scalar _ h hrest) ?_
      cases text with
      | nil => exact absurd rfl hne
      | cons c text =>
        exact skipBlanks_cons (isBlank_of_isScalarPart (Bool.and_eq_true_iff.mp hparts).1) _
  | string parts h =>
    intro rest hrest
    cases n with
    | zero => cases hn
    | succ n => exact element?_string h
  | emptyArray h =>
    intro rest hrest
    cases n with
    | zero => cases hn
    | succ n => exact element?_emptyArray h
  | array items hne h ih =>
    intro rest hrest
    cases n with
    | zero => cases hn
    | succ n =>
      rw [List.length_cons, List.length_append, List.length_singleton] at hn
      refine element?_array hne ?_
      intro item hitem
      have hlength := length_le_of_mem_intercalate (List.mem_map_of_mem (f := Prod.fst) hitem)
      exact ih item hitem (by omega)
  | emptyObject h =>
    intro rest hrest
    cases n with
    | zero => cases hn
    | succ n => exact element?_emptyObject h
  | object members hne hkeys hvalues ihkeys ihvalues =>
    intro rest hrest
    cases n with
    | zero => cases hn
    | succ n =>
      rw [List.length_cons, List.length_append, List.length_singleton] at hn
      have hlength : ∀ m ∈ members, m.keyText.length ≤ n ∧ m.valueText.length ≤ n := by
        intro m hm
        have htext := length_le_of_mem_intercalate (List.mem_map_of_mem (f := Member.text) hm)
        rw [Member.text, List.length_append, List.length_cons] at htext
        omega
      refine element?_object hne ?_ ?_
      · intro m hm
        exact ihkeys m hm (hlength m hm).1
      · intro m hm
        exact ihvalues m hm (hlength m hm).2

end Values

/-! ## What is read is denoted -/

section Respects

variable {α : Type} {item? : List Char → Option (α × List Char)} {P : List Char → α → Prop}
  {text rest : List Char} {n : Nat}

/-- What the reader takes off a text is what the value may be written as. -/
def Respects (item? : List Char → Option (α × List Char)) (P : List Char → α → Prop) : Prop :=
  ∀ text a rest, item? text = some (a, rest) → ∃ front, text = front ++ rest ∧ P front a

theorem respects_char? : Respects char? DenotesChar := by
  intro text c rest h
  unfold char? at h
  split at h
  · next digits =>
    obtain ⟨high, hhigh, h⟩ := Option.bind_eq_some_iff.mp h
    split at h
    case isTrue hvalid =>
      cases h
      refine ⟨'\\' :: 'u' :: digits.take 4, ?_, .code hhigh hvalid⟩
      rw [List.cons_append, List.cons_append, List.take_append_drop]
    case isFalse =>
      unfold secondCode? at h
      split at h
      · next digits' hdrop =>
        obtain ⟨low, hlow, h⟩ := Option.bind_eq_some_iff.mp h
        split at h
        case isTrue hpair =>
          obtain ⟨rfl, rfl⟩ := Prod.mk.inj (Option.some.inj h)
          refine ⟨'\\' :: 'u' :: (digits.take 4 ++ '\\' :: 'u' :: digits'.take 4), ?_,
            .surrogates hhigh hlow hpair.1 hpair.2⟩
          simp only [List.cons_append, List.append_assoc, List.take_append_drop]
          rw [← hdrop, List.take_append_drop]
        case isFalse => cases h
      · cases h
  · next mark tail _ =>
    obtain ⟨c', hmark, h⟩ := Option.map_eq_some_iff.mp h
    cases h
    exact ⟨['\\', mark], rfl, .escape hmark⟩
  · split at h
    case isTrue hplain =>
      cases h
      exact ⟨[c], rfl, .plain hplain⟩
    case isFalse => cases h
  · cases h

theorem exists_parts_of_chars? {cs : List Char} (h : chars? n text = some (cs, rest)) :
    ∃ parts : List (List Char × Char), (∀ p ∈ parts, DenotesChar p.1 p.2) ∧
      parts.map Prod.snd = cs ∧ text = (parts.map Prod.fst).flatten ++ '"' :: rest := by
  induction n generalizing text cs with
  | zero => cases h
  | succ n ih =>
    rw [chars?] at h
    split at h
    case isTrue hquote =>
      cases h
      refine ⟨[], nofun, rfl, ?_⟩
      cases text with
      | nil => cases hquote
      | cons c text =>
        rw [← Option.some.inj hquote]
        rfl
    case isFalse =>
      obtain ⟨⟨c, tail⟩, hchar, h⟩ := Option.bind_eq_some_iff.mp h
      obtain ⟨⟨cs', tail'⟩, hchars, h⟩ := Option.map_eq_some_iff.mp h
      cases h
      obtain ⟨front, rfl, hc⟩ := respects_char? _ _ _ hchar
      obtain ⟨parts, hparts, rfl, rfl⟩ := ih hchars
      refine ⟨(front, c) :: parts, List.forall_mem_cons.mpr ⟨hc, hparts⟩, rfl, ?_⟩
      rw [List.map_cons, List.flatten_cons, List.append_assoc]

theorem exists_parts_of_items? (hitem : Respects item? P) {closing : Char} {as : List α}
    (h : items? item? closing n text = some (as, rest)) :
    ∃ parts : List (List Char × α), parts ≠ [] ∧ (∀ p ∈ parts, P p.1 p.2) ∧
      parts.map Prod.snd = as ∧
      text = [','].intercalate (parts.map Prod.fst) ++ closing :: rest := by
  induction n generalizing text as with
  | zero => cases h
  | succ n ih =>
    rw [items?] at h
    split at h
    · next a c tail htext =>
      obtain ⟨front, rfl, ha⟩ := hitem _ _ _ htext
      split at h
      case isTrue hcomma =>
        obtain ⟨⟨as', tail'⟩, hothers, h⟩ := Option.map_eq_some_iff.mp h
        cases h
        obtain ⟨parts, hne, hparts, rfl, rfl⟩ := ih hothers
        refine ⟨(front, a) :: parts, List.cons_ne_nil _ _,
          List.forall_mem_cons.mpr ⟨ha, hparts⟩, rfl, ?_⟩
        cases parts with
        | nil => exact absurd rfl hne
        | cons p parts =>
          rw [hcomma, intercalate_comma]
      case isFalse =>
        split at h
        case isTrue hclosing =>
          cases h
          refine ⟨[(front, a)], List.cons_ne_nil _ _, List.forall_mem_singleton.mpr ha, rfl, ?_⟩
          rw [hclosing, List.map_singleton, List.intercalate_singleton]
        case isFalse => cases h
    · cases h

theorem exists_blanks (text : List Char) :
    ∃ blanks, text = blanks ++ skipBlanks text ∧ blanks.all isBlank :=
  ⟨text.takeWhile isBlank, List.takeWhile_append_dropWhile.symm, List.all_takeWhile⟩

theorem exists_parts_of_bracketed? (hitem : Respects item? P) {closing : Char} {as : List α}
    (h : bracketed? item? closing text = some (as, rest)) :
    (as = [] ∧ ∃ blanks : List Char, blanks.all isBlank ∧ text = blanks ++ closing :: rest) ∨
      ∃ parts : List (List Char × α), parts ≠ [] ∧ (∀ p ∈ parts, P p.1 p.2) ∧
        parts.map Prod.snd = as ∧
        text = [','].intercalate (parts.map Prod.fst) ++ closing :: rest := by
  rcases Option.or_eq_some_iff.mp h with hitems | ⟨-, hnone⟩
  · exact Or.inr (exists_parts_of_items? hitem hitems)
  · rw [noItems?] at hnone
    split at hnone
    case isTrue hhead =>
      obtain ⟨blanks, htext, hblanks⟩ := exists_blanks text
      cases hskip : skipBlanks text with
      | nil =>
        rw [hskip] at hhead
        cases hhead
      | cons c tail =>
        rw [hskip] at hhead hnone htext
        cases hhead
        cases hnone
        exact Or.inl ⟨rfl, blanks, hblanks, htext⟩
    case isFalse => cases hnone

/-- The text of a member is the text of a string and the text of the value, with a colon between. -/
def DenotesMember (text : List Char) (m : String × Json) : Prop :=
  ∃ keyText valueText, text = keyText ++ ':' :: valueText ∧ Denotes keyText (string m.1) ∧
    Denotes valueText m.2

theorem exists_members {parts : List (List Char × String × Json)}
    (h : ∀ p ∈ parts, DenotesMember p.1 p.2) :
    ∃ members : List Member, members.map Member.text = parts.map Prod.fst ∧
      (members.map fun m => (m.key, m.value)) = parts.map Prod.snd ∧
      (∀ m ∈ members, Denotes m.keyText (string m.key)) ∧
      ∀ m ∈ members, Denotes m.valueText m.value := by
  induction parts with
  | nil => exact ⟨[], rfl, rfl, nofun, nofun⟩
  | cons p parts ih =>
    rw [List.forall_mem_cons] at h
    obtain ⟨keyText, valueText, htext, hkey, hvalue⟩ := h.1
    obtain ⟨members, htexts, hmembers, hkeys, hvalues⟩ := ih h.2
    refine ⟨⟨keyText, p.2.1, valueText, p.2.2⟩ :: members, ?_, ?_,
      List.forall_mem_cons.mpr ⟨hkey, hkeys⟩, List.forall_mem_cons.mpr ⟨hvalue, hvalues⟩⟩
    · rw [List.map_cons, List.map_cons, htexts, htext]
      rfl
    · rw [List.map_cons, List.map_cons, hmembers]

variable {element? : List Char → Option (Json × List Char)}

theorem respects_member? (helement : Respects element? Denotes) :
    Respects (member? element?) DenotesMember := by
  intro text m rest h
  unfold member? at h
  split at h
  · next key c tail htext =>
    split at h
    case isTrue hcolon =>
      obtain ⟨⟨value, tail'⟩, hvalue, h⟩ := Option.map_eq_some_iff.mp h
      cases h
      obtain ⟨keyText, rfl, hkey⟩ := helement _ _ _ htext
      obtain ⟨valueText, rfl, hdenotes⟩ := helement _ _ _ hvalue
      refine ⟨keyText ++ ':' :: valueText, ?_, keyText, valueText, rfl, hkey, hdenotes⟩
      rw [hcolon, List.append_assoc, List.cons_append]
    case isFalse => cases h
  · cases h

theorem respects_value? (helement : Respects element? Denotes) :
    Respects (value? element?) Denotes := by
  intro text value rest h
  unfold value? at h
  split at h
  · next tail =>
    obtain ⟨⟨cs, tail'⟩, hchars, h⟩ := Option.map_eq_some_iff.mp h
    cases h
    obtain ⟨parts, hparts, rfl, rfl⟩ := exists_parts_of_chars? hchars
    exact ⟨_, (between_append _ _ _ _).symm, .string parts hparts⟩
  · next tail =>
    obtain ⟨⟨items, tail'⟩, hitems, h⟩ := Option.map_eq_some_iff.mp h
    cases h
    rcases exists_parts_of_bracketed? helement hitems with
      ⟨rfl, blanks, hblanks, rfl⟩ | ⟨parts, hne, hparts, rfl, rfl⟩
    · exact ⟨_, (between_append _ _ _ _).symm, .emptyArray hblanks⟩
    · exact ⟨_, (between_append _ _ _ _).symm, .array parts hne hparts⟩
  · next tail =>
    obtain ⟨⟨members, tail'⟩, hmembers, h⟩ := Option.map_eq_some_iff.mp h
    cases h
    rcases exists_parts_of_bracketed? (respects_member? helement) hmembers with
      ⟨rfl, blanks, hblanks, rfl⟩ | ⟨parts, hne, hparts, rfl, rfl⟩
    · exact ⟨_, (between_append _ _ _ _).symm, .emptyObject hblanks⟩
    · obtain ⟨members, htexts, hmembers, hkeys, hvalues⟩ := exists_members hparts
      have hsome : members ≠ [] := by
        rintro rfl
        exact hne (List.map_eq_nil_iff.mp htexts.symm)
      have hobject := Denotes.object members hsome hkeys hvalues
      rw [htexts, hmembers] at hobject
      exact ⟨_, (between_append _ _ _ _).symm, hobject⟩
  · obtain ⟨v, hscalar, h⟩ := Option.map_eq_some_iff.mp h
    cases h
    exact ⟨_, List.takeWhile_append_dropWhile.symm, .scalar hscalar⟩

theorem respects_element? (n : Nat) : Respects (Json.element? n) Denotes := by
  induction n with
  | zero =>
    intro text value rest h
    cases h
  | succ n ih =>
    intro text value rest h
    obtain ⟨⟨v, tail⟩, hvalue, h⟩ := Option.map_eq_some_iff.mp h
    cases h
    obtain ⟨front, hfront, hdenotes⟩ := respects_value? ih _ _ _ hvalue
    obtain ⟨before, htext, hbefore⟩ := exists_blanks text
    obtain ⟨behind, htail, hbehind⟩ := exists_blanks tail
    refine ⟨before ++ front ++ behind, ?_, .blanksBehind hbehind (.blanksBefore hbefore hdenotes)⟩
    rw [List.append_assoc, ← htail, List.append_assoc, ← hfront, ← htext]

end Respects

/-! ## Texts -/

/-- The reader reads just what the grammar says. -/
theorem ofText?_eq_some_iff {text : String} {value : Json} :
    ofText? text = some value ↔ Denotes text.toList value := by
  constructor
  · intro h
    unfold ofText? at h
    split at h
    · next v hread =>
      cases h
      obtain ⟨front, htext, hdenotes⟩ := respects_element? _ _ _ _ hread
      rw [List.append_nil] at htext
      rw [htext]
      exact hdenotes
    · cases h
  · intro h
    have hread := takes_of_denotes h (Nat.le_refl _) [] rfl
    rw [List.append_nil] at hread
    rw [ofText?, hread]
    rfl

example : ofText? " [-0, \"\\ud83d\\ude00\"]" =
    some (array [number 0, string (String.ofList [Char.ofNat 0x1f600])]) := by rfl

example : ofText? "[1,]" = none := by rfl

/-- No text denotes two values. -/
theorem Denotes.unique {text : List Char} {value value' : Json} (h : Denotes text value)
    (h' : Denotes text value') : value = value' := by
  rw [← String.toList_ofList (l := text)] at h h'
  exact Option.some.inj ((ofText?_eq_some_iff.mpr h).symm.trans (ofText?_eq_some_iff.mpr h'))

end SqlForest.Json
