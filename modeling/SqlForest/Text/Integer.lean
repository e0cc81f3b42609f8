/-!
# Integers in 64 bits

Decimal notation of the integers that fit a signed word of 64 bits.  `Integer.ofText?` reads an
optional sign and at least one digit, with any number of leading zeros; `Integer.text` writes the
shortest notation, which has no plus sign.
-/

namespace SqlForest.Integer

/-- The least integer of 64 bits. -/
def least : Int := -9223372036854775808

/-- The greatest integer of 64 bits. -/
def greatest : Int := 9223372036854775807

/-- Whether an integer fits 64 bits. -/
def Fits (n : Int) : Prop :=
  least ≤ n ∧ n ≤ greatest

instance (n : Int) : Decidable (Fits n) :=
  inferInstanceAs (Decidable (_ ∧ _))

/-- The value of a run of decimal digits, the most significant one first. -/
def valueOfDigits (digits : List Char) : Nat :=
  digits.foldl (fun value digit => 10 * value + (digit.toNat - '0'.toNat)) 0

/-- Reads one or more decimal digits. -/
def ofDigits? (digits : List Char) : Option Nat :=
  if digits ≠ [] ∧ digits.all Char.isDigit then some (valueOfDigits digits) else none

/-- Reads an optional sign and one or more decimal digits. -/
def ofSigned? : List Char → Option Int
  | '-' :: digits => (ofDigits? digits).map fun value => -(value : Int)
  | '+' :: digits => (ofDigits? digits).map Int.ofNat
  | digits => (ofDigits? digits).map Int.ofNat

/-- Reads an integer of 64 bits. -/
def ofText? (text : String) : Option Int :=
  (ofSigned? text.toList).filter fun value => decide (Fits value)

example : ofText? "+0042" = some 42 := by decide

example : ofText? "-9223372036854775808" = some least := by decide

example : ofText? "9223372036854775808" = none := by decide

example : ofText? "-" = none := by decide

/-- The decimal notation of a natural number. -/
def naturalText (n : Nat) : String :=
  String.ofList (Nat.toDigits 10 n)

/-- The decimal notation of an integer. -/
def text : Int → String
  | .ofNat n => naturalText n
  | .negSucc n => "-" ++ naturalText (n + 1)

end SqlForest.Integer
