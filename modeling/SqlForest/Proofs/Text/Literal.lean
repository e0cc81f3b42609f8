import Mathlib.Data.List.Induction
import Mathlib.Data.Nat.Digits.Defs
import SqlForest.Proofs.Text.Integer

/-!
# What literals denote

A literal is at most one sign and one or more decimal digits (`Integer.Denotes`), of any number and
with any leading zeros.  `Integer.ofText?` reads exactly the literals whose values have 64 bits
(`Integer.ofText?_eq_some`), so whether digits are read depends on their value and not on how many
there are (`Integer.isSome_ofText?_digits`).
-/

namespace SqlForest.Integer

/-- The number whose decimal notation the digits are. -/
def decimal (digits : List Char) : Nat :=
  Nat.ofDigits 10 (digits.reverse.map fun digit => digit.toNat - '0'.toNat)

/-- The text is a literal of the integer. -/
inductive Denotes : List Char → Int → Prop
  | unsigned {digits : List Char} (hne : digits ≠ []) (hdigits : digits.all Char.isDigit) :
    Denotes digits (decimal digits)
  | plus {digits : List Char} (hne : digits ≠ []) (hdigits : digits.all Char.isDigit) :
    Denotes ('+' :: digits) (decimal digits)
  | minus {digits : List Char} (hne : digits ≠ []) (hdigits : digits.all Char.isDigit) :
    Denotes ('-' :: digits) (-decimal digits)

theorem valueOfDigits_eq_decimal (digits : List Char) : valueOfDigits digits = decimal digits := by
  induction digits using List.reverseRecOn with
  | nil => rfl
  | append_singleton digits digit ih =>
    have hvalue : valueOfDigits (digits ++ [digit]) =
        10 * valueOfDigits digits + (digit.toNat - '0'.toNat) := by
      rw [valueOfDigits, List.foldl_append]
      rfl
    have hdecimal : decimal (digits ++ [digit]) =
        (digit.toNat - '0'.toNat) + 10 * decimal digits := by
      rw [decimal, List.reverse_append, List.reverse_singleton, List.singleton_append,
        List.map_cons, Nat.ofDigits_cons]
      rfl
    rw [hvalue, ih, hdecimal, Nat.add_comm]

theorem ofDigits?_eq_some {digits : List Char} {n : Nat} :
    ofDigits? digits = some n ↔ digits ≠ [] ∧ digits.all Char.isDigit ∧ decimal digits = n := by
  unfold ofDigits?
  rw [valueOfDigits_eq_decimal]
  split
  · rename_i h
    simp [h]
  · rename_i h
    simp only [reduceCtorEq, false_iff]
    rintro ⟨hne, hdigits, -⟩
    exact h ⟨hne, hdigits⟩

theorem ofSigned?_eq_some {text : List Char} {value : Int} :
    ofSigned? text = some value ↔ Denotes text value := by
  constructor
  · intro h
    unfold ofSigned? at h
    split at h
    · rename_i digits
      cases hn : ofDigits? digits with
      | none =>
        rw [hn] at h
        cases h
      | some n =>
        obtain ⟨hne, hdigits, rfl⟩ := ofDigits?_eq_some.mp hn
        rw [hn] at h
        cases h
        exact .minus hne hdigits
    · obtain ⟨n, hn, rfl⟩ := Option.map_eq_some_iff.mp h
      obtain ⟨hne, hdigits, rfl⟩ := ofDigits?_eq_some.mp hn
      exact .plus hne hdigits
    · obtain ⟨n, hn, rfl⟩ := Option.map_eq_some_iff.mp h
      obtain ⟨hne, hdigits, rfl⟩ := ofDigits?_eq_some.mp hn
      exact .unsigned hne hdigits
  · intro h
    cases h with
    | unsigned hne hdigits =>
      rw [ofSigned?_of_isDigit hdigits, ofDigits?_eq_some.mpr ⟨hne, hdigits, rfl⟩]
      rfl
    | plus hne hdigits =>
      rw [ofSigned?, ofDigits?_eq_some.mpr ⟨hne, hdigits, rfl⟩]
      rfl
    | minus hne hdigits =>
      rw [ofSigned?, ofDigits?_eq_some.mpr ⟨hne, hdigits, rfl⟩]
      rfl

theorem fits_iff {value : Int} : Fits value ↔ -2 ^ 63 ≤ value ∧ value ≤ 2 ^ 63 - 1 := by
  unfold Fits least greatest
  omega

/-- What is read of a text is the value of the literal that it is, if that has 64 bits. -/
theorem ofText?_eq_some {text : String} {value : Int} :
    ofText? text = some value ↔
      Denotes text.toList value ∧ -2 ^ 63 ≤ value ∧ value ≤ 2 ^ 63 - 1 := by
  rw [ofText?, Option.filter_eq_some_iff, ofSigned?_eq_some, decide_eq_true_eq, fits_iff]

/-- Digits are read if and only if their value has 63 bits. -/
theorem isSome_ofText?_digits {digits : List Char} (hne : digits ≠ [])
    (hdigits : digits.all Char.isDigit) :
    (ofText? (String.ofList digits)).isSome ↔ decimal digits ≤ 2 ^ 63 - 1 := by
  rw [Option.isSome_iff_exists]
  constructor
  · rintro ⟨value, h⟩
    obtain ⟨hdenotes, -, hle⟩ := ofText?_eq_some.mp h
    have hread := ofSigned?_eq_some.mpr hdenotes
    rw [String.toList_ofList, ofSigned?_eq_some.mpr (.unsigned hne hdigits)] at hread
    rw [← Option.some.inj hread] at hle
    omega
  · intro hle
    refine ⟨decimal digits, ofText?_eq_some.mpr ⟨?_, ?_, ?_⟩⟩
    · rw [String.toList_ofList]
      exact .unsigned hne hdigits
    · omega
    · omega

end SqlForest.Integer
