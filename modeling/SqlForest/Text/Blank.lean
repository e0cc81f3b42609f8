import SqlForest.Text.Ranges

/-!
# Blank characters

The ranges of the `White_Space` property of Unicode.  Besides the blank and the control characters
of ASCII it holds the next line, the no-break space, the spaces of several widths, and the line
and paragraph separators.
-/

namespace SqlForest.Text

/-- The code points with the property `White_Space`. -/
def blankRanges : List (Nat × Nat) := [
    (0x9, 0xD), (0x20, 0x20), (0x85, 0x85), (0xA0, 0xA0), (0x1680, 0x1680), (0x2000, 0x200A),
    (0x2028, 0x2029), (0x202F, 0x202F), (0x205F, 0x205F), (0x3000, 0x3000)]

/-- Whether a character has the property `White_Space`. -/
def isBlank (c : Char) : Bool :=
  inRanges c.toNat blankRanges

/-- The blank characters of ASCII are blank. -/
theorem isBlank_of_isWhitespace {c : Char} (h : c.isWhitespace) : isBlank c := by
  simp only [Char.isWhitespace, Bool.or_eq_true, decide_eq_true_eq] at h
  obtain ((rfl | rfl) | rfl) | rfl := h <;> decide

end SqlForest.Text
