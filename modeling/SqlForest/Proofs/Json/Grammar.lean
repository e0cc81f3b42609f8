import SqlForest.Json

/-!
# The grammar of JSON

Which texts denote which values (`Json.Denotes`).  Blanks may stand around every value, a list and
an object take their members in any layout, and a character of a string may be written in each way
that the standard has for it: as it is, by a short escape, by its code, or by a pair of surrogate
codes.  Numbers are integers here, so they have neither a fraction nor an exponent, but there is a
minus zero.
-/

namespace SqlForest.Json

/-- A blank between the parts of a text. -/
def isBlank (c : Char) : Bool :=
  c = ' ' || c = '\t' || c = '\n' || c = '\r'

/-! ## Scalars -/

/-- Reads digits that have no needless zero in front. -/
def natural? (digits : List Char) : Option Nat :=
  if digits.head? = some '0' ∧ digits ≠ ['0'] then none else Integer.ofDigits? digits

/-- Reads an integer. -/
def numeral? : List Char → Option Int
  | '-' :: digits => (natural? digits).map fun n : Nat => -(n : Int)
  | digits => (natural? digits).map Int.ofNat

/-- The words that are values. -/
def words : List (List Char × Json) :=
  [(['n', 'u', 'l', 'l'], null), (['t', 'r', 'u', 'e'], bool true),
    (['f', 'a', 'l', 's', 'e'], bool false)]

/-- Reads a value that is a word or a number. -/
def scalar? (text : List Char) : Option Json :=
  (words.lookup text).or ((numeral? text).map number)

/-! ## Characters of strings -/

/-- The value of a hexadecimal digit in lower or upper case. -/
def hexValue? (c : Char) : Option Nat :=
  if c.isDigit then some (c.toNat - '0'.toNat)
  else if 'a' ≤ c ∧ c ≤ 'f' then some (c.toNat - 'a'.toNat + 10)
  else if 'A' ≤ c ∧ c ≤ 'F' then some (c.toNat - 'A'.toNat + 10)
  else none

/-- Reads a code of four hexadecimal digits. -/
def code? : List Char → Option Nat
  | [a, b, c, d] =>
    match hexValue? a, hexValue? b, hexValue? c, hexValue? d with
    | some a, some b, some c, some d => some (((a * 16 + b) * 16 + c) * 16 + d)
    | _, _, _, _ => none
  | _ => none

/-- The characters that have an escape of one mark. -/
def shortEscapes : List (Char × Char) :=
  [('"', '"'), ('\\', '\\'), ('/', '/'), ('b', '\x08'), ('f', '\x0c'), ('n', '\n'), ('r', '\r'),
    ('t', '\t')]

/-- The character may stand in a string as it is. -/
def isPlain (c : Char) : Bool :=
  32 ≤ c.toNat && c ≠ '"' && c ≠ '\\'

/-- The first code of a pair. -/
def IsHighSurrogate (code : Nat) : Prop :=
  0xD800 ≤ code ∧ code < 0xDC00

/-- The second code of a pair. -/
def IsLowSurrogate (code : Nat) : Prop :=
  0xDC00 ≤ code ∧ code < 0xE000

instance (code : Nat) : Decidable (IsHighSurrogate code) :=
  inferInstanceAs (Decidable (_ ∧ _))

instance (code : Nat) : Decidable (IsLowSurrogate code) :=
  inferInstanceAs (Decidable (_ ∧ _))

/-- The character that a pair of surrogate codes stands for. -/
def ofSurrogates (high low : Nat) : Char :=
  Char.ofNat (0x10000 + (high - 0xD800) * 0x400 + (low - 0xDC00))

/-- The text denotes the character inside a string. -/
inductive DenotesChar : List Char → Char → Prop
  | plain {c : Char} (h : isPlain c) : DenotesChar [c] c
  | escape {mark c : Char} (h : shortEscapes.lookup mark = some c) : DenotesChar ['\\', mark] c
  | code {digits : List Char} {n : Nat} (h : code? digits = some n) (hvalid : n.isValidChar) :
    DenotesChar ('\\' :: 'u' :: digits) (Char.ofNat n)
  | surrogates {digits digits' : List Char} {high low : Nat} (h : code? digits = some high)
    (h' : code? digits' = some low) (hhigh : IsHighSurrogate high) (hlow : IsLowSurrogate low) :
    DenotesChar ('\\' :: 'u' :: (digits ++ '\\' :: 'u' :: digits')) (ofSurrogates high low)

/-! ## Values -/

/-- A member of an object, with the texts of its key and of its value. -/
structure Member where
  keyText : List Char
  key : String
  valueText : List Char
  value : Json

/-- The text of a member. -/
def Member.text (m : Member) : List Char :=
  m.keyText ++ ':' :: m.valueText

/-- The text denotes the value.  Blanks around a value belong to its text. -/
inductive Denotes : List Char → Json → Prop
  | blankBefore {c : Char} {text : List Char} {value : Json} (hblank : isBlank c)
    (h : Denotes text value) : Denotes (c :: text) value
  | blankBehind {c : Char} {text : List Char} {value : Json} (hblank : isBlank c)
    (h : Denotes text value) : Denotes (text ++ [c]) value
  | scalar {text : List Char} {value : Json} (h : scalar? text = some value) : Denotes text value
  | string (parts : List (List Char × Char)) (h : ∀ p ∈ parts, DenotesChar p.1 p.2) :
    Denotes ('"' :: ((parts.map Prod.fst).flatten ++ ['"']))
      (.string (String.ofList (parts.map Prod.snd)))
  | emptyArray {blanks : List Char} (h : blanks.all isBlank) :
    Denotes ('[' :: (blanks ++ [']'])) (array [])
  | array (items : List (List Char × Json)) (hne : items ≠ [])
    (h : ∀ item ∈ items, Denotes item.1 item.2) :
    Denotes ('[' :: ([','].intercalate (items.map Prod.fst) ++ [']'])) (array (items.map Prod.snd))
  | emptyObject {blanks : List Char} (h : blanks.all isBlank) :
    Denotes ('\x7b' :: (blanks ++ ['\x7d'])) (object [])
  | object (members : List Member) (hne : members ≠ [])
    (hkeys : ∀ m ∈ members, Denotes m.keyText (.string m.key))
    (hvalues : ∀ m ∈ members, Denotes m.valueText m.value) :
    Denotes ('\x7b' :: ([','].intercalate (members.map Member.text) ++ ['\x7d']))
      (object (members.map fun m => (m.key, m.value)))

/-! ## Blanks and separators -/

theorem Denotes.blanksBefore {blanks text : List Char} {value : Json} (hblanks : blanks.all isBlank)
    (h : Denotes text value) : Denotes (blanks ++ text) value := by
  induction blanks with
  | nil => exact h
  | cons c blanks ih =>
    rw [List.all_cons, Bool.and_eq_true] at hblanks
    exact .blankBefore hblanks.1 (ih hblanks.2)

theorem Denotes.blanksBehind {blanks text : List Char} {value : Json} (hblanks : blanks.all isBlank)
    (h : Denotes text value) : Denotes (text ++ blanks) value := by
  induction blanks generalizing text with
  | nil =>
    rw [List.append_nil]
    exact h
  | cons c blanks ih =>
    rw [List.all_cons, Bool.and_eq_true] at hblanks
    rw [← List.singleton_append, ← List.append_assoc]
    exact ih hblanks.2 (.blankBehind hblanks.1 h)

end SqlForest.Json
