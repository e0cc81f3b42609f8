import SqlForest.Text.Integer

/-!
# Decimal notation reads back

The decimal notation of a natural number is a run of digits (`Integer.naturalText_isDigit`) whose
value is the number.  So an integer of 64 bits is read back from its notation
(`Integer.ofText?_text`).
-/

namespace SqlForest.Integer

/-- The digits of a number have the value of the number. -/
theorem valueOfDigits_toDigits (n : Nat) : valueOfDigits (Nat.toDigits 10 n) = n :=
  Nat.ofDigitChars_toDigits (by decide) (by decide)

theorem toList_naturalText (n : Nat) : (naturalText n).toList = Nat.toDigits 10 n :=
  String.toList_ofList

theorem naturalText_ne_nil (n : Nat) : (naturalText n).toList ≠ [] := by
  rw [toList_naturalText]
  exact Nat.toDigits_ne_nil

theorem naturalText_isDigit (n : Nat) : (naturalText n).toList.all Char.isDigit := by
  rw [toList_naturalText, List.all_eq_true]
  intro c hc
  exact Nat.isDigit_of_mem_toDigits (by decide) (by decide) hc

theorem ofDigits?_naturalText (n : Nat) : ofDigits? (naturalText n).toList = some n := by
  rw [ofDigits?, if_pos ⟨naturalText_ne_nil n, naturalText_isDigit n⟩, toList_naturalText,
    valueOfDigits_toDigits]

/-- A run of digits has no sign. -/
theorem ofSigned?_of_isDigit {digits : List Char} (h : digits.all Char.isDigit) :
    ofSigned? digits = (ofDigits? digits).map Int.ofNat := by
  cases digits with
  | nil => rfl
  | cons c digits =>
    have hc : c.isDigit := (Bool.and_eq_true_iff.mp h).1
    rw [ofSigned?]
    · intro _ hminus
      rw [(List.cons.inj hminus).1] at hc
      exact absurd hc (by decide)
    · intro _ hplus
      rw [(List.cons.inj hplus).1] at hc
      exact absurd hc (by decide)

theorem toList_text_negSucc (n : Nat) :
    (text (.negSucc n)).toList = '-' :: (naturalText (n + 1)).toList := by
  rw [text, String.toList_append]
  rfl

theorem ofSigned?_text (value : Int) : ofSigned? (text value).toList = some value := by
  cases value with
  | ofNat n =>
    show ofSigned? (naturalText n).toList = _
    rw [ofSigned?_of_isDigit (naturalText_isDigit n), ofDigits?_naturalText]
    rfl
  | negSucc n =>
    rw [toList_text_negSucc, ofSigned?, ofDigits?_naturalText]
    rfl

/-- Two integers never have the same notation. -/
theorem text_injective {a b : Int} (h : text a = text b) : a = b := by
  have ha := ofSigned?_text a
  rw [h, ofSigned?_text] at ha
  exact (Option.some.inj ha).symm

/-- The notation of an integer is made of digits and at most a minus sign. -/
theorem isDigit_of_mem_text {value : Int} {c : Char} (h : c ∈ (text value).toList) :
    c = '-' ∨ c.isDigit := by
  cases value with
  | ofNat n => exact Or.inr (List.all_eq_true.mp (naturalText_isDigit n) c h)
  | negSucc n =>
    rw [toList_text_negSucc] at h
    rcases List.mem_cons.mp h with h | h
    · exact Or.inl h
    · exact Or.inr (List.all_eq_true.mp (naturalText_isDigit (n + 1)) c h)

/-- An integer of 64 bits is what its decimal notation denotes. -/
theorem ofText?_text {value : Int} (h : Fits value) : ofText? (text value) = some value := by
  rw [ofText?, ofSigned?_text]
  simp [h]

end SqlForest.Integer
