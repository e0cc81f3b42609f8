/-!
# Capitals

The full upper case of a text, as far as it is written in ASCII.  Case is folded character by
character, and one character may become several.
-/

namespace SqlForest.Text

/-- The full upper case of a character, where that is written in ASCII.  Any other character
stands for itself: neither it nor its upper case can be part of an ASCII word. -/
def capitals (c : Char) : List Char :=
  if 'a' ≤ c ∧ c ≤ 'z' then [Char.ofNat (c.toNat - 32)]
  else match c with
    | 'ß' => ['S', 'S']
    | 'ı' => ['I']
    | 'ſ' => ['S']
    | 'ﬀ' => ['F', 'F']
    | 'ﬁ' => ['F', 'I']
    | 'ﬂ' => ['F', 'L']
    | 'ﬃ' => ['F', 'F', 'I']
    | 'ﬄ' => ['F', 'F', 'L']
    | 'ﬅ' => ['S', 'T']
    | 'ﬆ' => ['S', 'T']
    | _ => [c]

/-- The text in capitals. -/
def inCapitals (text : String) : String :=
  String.ofList (text.toList.flatMap capitals)

end SqlForest.Text
