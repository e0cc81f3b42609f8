import SqlForest.Proofs.Json.Grammar
import SqlForest.Proofs.Text.Integer

/-!
# The text of a value denotes it

Strings go character by character, numbers have no needless zero in front, and a list or an object
is read off its lines: a line is a text between commas with blanks around it
(`Json.exists_ends_enclose`).  By induction on the value its text denotes it
(`Json.denotes_text`).
-/

namespace SqlForest.Json

/-! ## Strings and numbers -/

theorem code?_control : ∀ n < 32, code? ['0', '0', hexDigit (n / 16), hexDigit n] = some n := by
  decide

theorem denotes_escapeChar (c : Char) : DenotesChar (escapeChar c) c := by
  unfold escapeChar
  split
  case h_8 hquote hbackslash _ _ _ _ _ =>
    split
    case isTrue hcontrol =>
      have hcode := DenotesChar.code (code?_control c.toNat hcontrol) c.valid
      rwa [Char.ofNat_toNat] at hcode
    case isFalse hcontrol =>
      refine .plain ?_
      rw [isPlain, Bool.and_eq_true, Bool.and_eq_true]
      exact ⟨⟨decide_eq_true (Nat.le_of_not_lt hcontrol), decide_eq_true hquote⟩,
        decide_eq_true hbackslash⟩
  all_goals exact .escape rfl

theorem denotes_quote (text : String) : Denotes (quote text).toList (string text) := by
  have hparts : ∀ p ∈ text.toList.map fun c => (escapeChar c, c), DenotesChar p.1 p.2 := by
    intro p hp
    obtain ⟨c, -, rfl⟩ := List.mem_map.mp hp
    exact denotes_escapeChar c
  have h := Denotes.string _ hparts
  rw [List.map_map, List.map_map, ← List.flatMap_def] at h
  have hvalue : String.ofList (text.toList.map (Prod.snd ∘ fun c => (escapeChar c, c))) = text := by
    have hid : (Prod.snd ∘ fun c => (escapeChar c, c)) = id := rfl
    rw [hid, List.map_id, String.ofList_toList]
  rw [hvalue] at h
  rw [quote, String.toList_append, String.toList_append, String.toList_ofList, String.toList_ofList,
    List.append_assoc]
  exact h

/-- The digits of a number begin with a zero only for zero itself. -/
theorem toDigits_of_head_zero (n : Nat) (h : (Nat.toDigits 10 n).head? = some '0') :
    Nat.toDigits 10 n = ['0'] := by
  induction n using Nat.strongRecOn with
  | ind n ih =>
    rcases Nat.lt_or_ge n 10 with hn | hn
    · rw [Nat.toDigits_of_lt_base hn] at h ⊢
      rw [Option.some.inj h]
    · -- Otherwise the leading digit is the one of a tenth of the number, which is not zero.
      have hhead : (Nat.toDigits 10 (n / 10)).head? = some '0' := by
        rw [Nat.toDigits_of_base_le (by decide) hn] at h
        cases hdigits : Nat.toDigits 10 (n / 10) with
        | nil => exact absurd hdigits Nat.toDigits_ne_nil
        | cons c digits =>
          rw [hdigits] at h
          exact h
      have htenth := congrArg Integer.valueOfDigits (ih (n / 10) (by omega) hhead)
      rw [Integer.valueOfDigits_toDigits] at htenth
      have hzero : n / 10 = 0 := htenth
      omega

theorem natural?_naturalText (n : Nat) : natural? (Integer.naturalText n).toList = some n := by
  rw [natural?, if_neg, Integer.ofDigits?_naturalText]
  rintro ⟨hzero, hne⟩
  rw [Integer.toList_naturalText] at hzero hne
  exact hne (toDigits_of_head_zero n hzero)

theorem numeral?_text (value : Int) : numeral? (Integer.text value).toList = some value := by
  cases value with
  | ofNat n =>
    show numeral? (Integer.naturalText n).toList = _
    rw [numeral?, natural?_naturalText]
    · rfl
    · intro digits hminus
      have hdigit := Integer.naturalText_isDigit n
      rw [hminus] at hdigit
      cases hdigit
  | negSucc n =>
    rw [Integer.toList_text_negSucc, numeral?, natural?_naturalText]
    rfl

theorem scalar?_text (value : Int) : scalar? (Integer.text value).toList = some (number value) := by
  have hletter : ∀ p ∈ words, ∃ c ∈ p.1, c ≠ '-' ∧ c.isDigit = false := by simp [words]
  have hword : words.lookup (Integer.text value).toList = none := by
    rw [List.lookup_eq_none_iff]
    intro p hp
    obtain ⟨c, hc, hsign, hdigit⟩ := hletter p hp
    refine bne_iff_ne.mpr ?_
    intro htext
    rw [← htext] at hc
    rcases Integer.isDigit_of_mem_text hc with h | h
    · exact hsign h
    · rw [hdigit] at h
      cases h
  rw [scalar?, hword, numeral?_text]
  rfl

theorem itemLines_eq_map (level : Nat) (items : List Json) :
    itemLines level items = items.map fun item => indent level ++ textAt level item := by
  induction items with
  | nil => rw [itemLines, List.map_nil]
  | cons item items ih => rw [itemLines, ih, List.map_cons]

theorem memberLines_eq_map (level : Nat) (members : List (String × Json)) :
    memberLines level members =
      members.map fun m => indent level ++ quote m.1 ++ ": " ++ textAt level m.2 := by
  induction members with
  | nil => rw [memberLines, List.map_nil]
  | cons m members ih => rw [memberLines, ih, List.map_cons]

/-! ## Induction on values -/

/-- What holds of all items holds of the list, and what holds of the values of all members holds of
the object. -/
@[elab_as_elim]
theorem induction {P : Json → Prop} (null : P null) (bool : ∀ value, P (bool value))
    (number : ∀ value, P (number value)) (string : ∀ value, P (string value))
    (array : ∀ items, (∀ item ∈ items, P item) → P (array items))
    (object : ∀ members, (∀ m ∈ members, P m.2) → P (object members)) (value : Json) : P value :=
  @Json.rec P (fun items => ∀ item ∈ items, P item) (fun members => ∀ m ∈ members, P m.2)
    (fun m => P m.2) null bool number string array object nofun
    (fun _ _ hitem hitems => List.forall_mem_cons.mpr ⟨hitem, hitems⟩) nofun
    (fun _ _ hm hmembers => List.forall_mem_cons.mpr ⟨hm, hmembers⟩) (fun _ _ h => h) value

/-! ## Lines between brackets -/

theorem isBlank_indent (level : Nat) : (indent level).toList.all isBlank := by
  rw [indent, String.toList_ofList, List.all_eq_true]
  intro c hc
  rw [List.eq_of_mem_replicate hc]
  rfl

/-- Lines are texts between commas, each with its line break in front of it, and the last one with
what stands behind all of them. -/
theorem exists_ends {α : Type} {behind : List Char} (hbehind : behind.all isBlank)
    (line : α → List Char) (first : α) (items : List α) :
    ∃ ends : List (α × List Char), ends.map Prod.fst = first :: items ∧
      (∀ e ∈ ends, e.2.all isBlank) ∧
      '\n' :: ([',', '\n'].intercalate ((first :: items).map line) ++ behind) =
        [','].intercalate (ends.map fun e => '\n' :: (line e.1 ++ e.2)) := by
  induction items generalizing first with
  | nil =>
    refine ⟨[(first, behind)], rfl, List.forall_mem_singleton.mpr hbehind, ?_⟩
    rw [List.map_singleton, List.map_singleton, List.intercalate_singleton,
      List.intercalate_singleton]
  | cons item items ih =>
    obtain ⟨ends, hitems, hends, htext⟩ := ih item
    refine ⟨(first, []) :: ends, ?_, List.forall_mem_cons.mpr ⟨rfl, hends⟩, ?_⟩
    · rw [List.map_cons, hitems]
    · cases ends with
      | nil => cases hitems
      | cons e ends =>
        calc '\n' :: ([',', '\n'].intercalate ((first :: item :: items).map line) ++ behind)
          _ = '\n' :: (line first ++ []) ++ [','] ++
              '\n' :: ([',', '\n'].intercalate ((item :: items).map line) ++ behind) := by
            rw [List.map_cons, List.map_cons, List.intercalate_cons_cons]
            simp only [List.append_assoc, List.cons_append, List.nil_append]
          _ = '\n' :: (line first ++ []) ++ [','] ++
              [','].intercalate ((e :: ends).map fun e => '\n' :: (line e.1 ++ e.2)) := by
            rw [htext]
          _ = [','].intercalate
              (((first, []) :: e :: ends).map fun e => '\n' :: (line e.1 ++ e.2)) :=
            List.intercalate_cons_cons.symm

theorem enclose_nil (level : Nat) (opening closing : String) :
    enclose level opening [] closing = opening ++ closing :=
  rfl

theorem enclose_cons (level : Nat) (opening closing first : String) (lines : List String) :
    enclose level opening (first :: lines) closing =
      opening ++ "\n" ++ ",\n".intercalate (first :: lines) ++ "\n" ++ indent level ++ closing :=
  rfl

/-- Between the brackets there are texts between commas, with blanks around each. -/
theorem exists_ends_enclose {α : Type} (level : Nat) (opening closing : String) (line : α → String)
    (first : α) (items : List α) :
    ∃ ends : List (α × List Char), ends.map Prod.fst = first :: items ∧
      (∀ e ∈ ends, e.2.all isBlank) ∧
      (enclose level opening ((first :: items).map line) closing).toList =
        opening.toList ++
          ([','].intercalate (ends.map fun e => '\n' :: ((line e.1).toList ++ e.2)) ++
            closing.toList) := by
  have hbehind : ('\n' :: (indent level).toList).all isBlank := isBlank_indent level
  obtain ⟨ends, hitems, hends, htext⟩ := exists_ends hbehind (fun a => (line a).toList) first items
  refine ⟨ends, hitems, hends, ?_⟩
  rw [List.map_cons, enclose_cons, ← List.map_cons, ← htext]
  have hbreak : "\n".toList = ['\n'] := rfl
  have hcomma : ",\n".toList = [',', '\n'] := rfl
  simp only [String.toList_append, String.toList_intercalate, hbreak, hcomma, List.map_map,
    List.append_assoc, List.cons_append, List.nil_append]
  rfl

theorem denotes_array (level : Nat) (items : List Json)
    (h : ∀ item ∈ items, Denotes (textAt (level + 1) item).toList item) :
    Denotes (textAt level (array items)).toList (array items) := by
  rw [textAt, itemLines_eq_map]
  cases items with
  | nil =>
    rw [List.map_nil, enclose_nil, String.toList_append]
    exact @Denotes.emptyArray [] rfl
  | cons first items =>
    obtain ⟨ends, hitems, hends, htext⟩ := exists_ends_enclose level "[" "]"
      (fun item => indent (level + 1) ++ textAt (level + 1) item) first items
    have hne : ends ≠ [] := by
      rintro rfl
      cases hitems
    have hparts : ∀ part ∈ ends.map fun e =>
        ('\n' :: ((indent (level + 1) ++ textAt (level + 1) e.1).toList ++ e.2), e.1),
        Denotes part.1 part.2 := by
      intro part hpart
      obtain ⟨e, he, rfl⟩ := List.mem_map.mp hpart
      have hitem : e.1 ∈ first :: items := hitems ▸ List.mem_map_of_mem he
      rw [String.toList_append]
      refine .blankBefore rfl (.blanksBehind (hends e he) ?_)
      exact (h e.1 hitem).blanksBefore (isBlank_indent (level + 1))
    have harray := Denotes.array _ (mt List.map_eq_nil_iff.mp hne) hparts
    rw [List.map_map, List.map_map] at harray
    rw [htext, ← hitems]
    exact harray

/-- A member on a line of its own, with blanks behind it. -/
def Member.onLine (level : Nat) (m : String × Json) (behind : List Char) : Member where
  keyText := '\n' :: (indent level ++ quote m.1).toList
  key := m.1
  valueText := ' ' :: ((textAt level m.2).toList ++ behind)
  value := m.2

theorem Member.text_onLine (level : Nat) (m : String × Json) (behind : List Char) :
    (Member.onLine level m behind).text =
      '\n' :: ((indent level ++ quote m.1 ++ ": " ++ textAt level m.2).toList ++ behind) := by
  have hcolon : ": ".toList = [':', ' '] := rfl
  rw [String.toList_append, String.toList_append, hcolon, List.append_assoc, List.append_assoc]
  rfl

theorem denotes_object (level : Nat) (members : List (String × Json))
    (h : ∀ m ∈ members, Denotes (textAt (level + 1) m.2).toList m.2) :
    Denotes (textAt level (object members)).toList (object members) := by
  rw [textAt, memberLines_eq_map]
  cases members with
  | nil =>
    rw [List.map_nil, enclose_nil, String.toList_append]
    exact @Denotes.emptyObject [] rfl
  | cons first members =>
    obtain ⟨ends, hmembers, hends, htext⟩ := exists_ends_enclose level "\x7b" "\x7d"
      (fun m => indent (level + 1) ++ quote m.1 ++ ": " ++ textAt (level + 1) m.2) first members
    have hne : ends ≠ [] := by
      rintro rfl
      cases hmembers
    have hkeys : ∀ m ∈ ends.map fun e => Member.onLine (level + 1) e.1 e.2,
        Denotes m.keyText (string m.key) := by
      intro m hm
      obtain ⟨e, -, rfl⟩ := List.mem_map.mp hm
      have hkey := (denotes_quote e.1.1).blanksBefore (isBlank_indent (level + 1))
      rw [← String.toList_append] at hkey
      exact .blankBefore rfl hkey
    have hvalues : ∀ m ∈ ends.map fun e => Member.onLine (level + 1) e.1 e.2,
        Denotes m.valueText m.value := by
      intro m hm
      obtain ⟨e, he, rfl⟩ := List.mem_map.mp hm
      have hmem : e.1 ∈ first :: members := hmembers ▸ List.mem_map_of_mem he
      exact .blankBefore rfl (.blanksBehind (hends e he) (h e.1 hmem))
    have hobject := Denotes.object _ (mt List.map_eq_nil_iff.mp hne) hkeys hvalues
    rw [List.map_map, List.map_map] at hobject
    simp only [← Member.text_onLine] at htext
    rw [htext, ← hmembers]
    exact hobject

theorem denotes_textAt (value : Json) (level : Nat) :
    Denotes (textAt level value).toList value := by
  induction value using Json.induction generalizing level with
  | null =>
    rw [textAt]
    exact .scalar rfl
  | bool value =>
    cases value with
    | false =>
      rw [textAt]
      exact .scalar rfl
    | true =>
      rw [textAt]
      exact .scalar rfl
  | number value =>
    rw [textAt]
    exact .scalar (scalar?_text value)
  | string value =>
    rw [textAt]
    exact denotes_quote value
  | array items ih => exact denotes_array level items fun item hitem => ih item hitem (level + 1)
  | object members ih => exact denotes_object level members fun m hm => ih m hm (level + 1)

/-- The text of a value denotes the value. -/
theorem denotes_text (value : Json) : Denotes value.text.toList value :=
  denotes_textAt value 0

end SqlForest.Json
