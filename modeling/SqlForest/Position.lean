import SqlForest.Text.Integer

/-!
# Positions in a source text

A position names the source and counts lines and columns from one.  Both counts stop at the
greatest unsigned number of 32 bits, so a longer line or text shares its last position.
-/

namespace SqlForest

/-- A place in a source text. -/
structure Position where
  source : String
  line : Nat
  column : Nat
deriving DecidableEq, Repr

namespace Position

/-- The greatest line and the greatest column. -/
def lastCount : Nat := 4294967295

/-- The line or column after the given one. -/
def countAfter (count : Nat) : Nat :=
  min (count + 1) lastCount

theorem countAfter_of_lt {count : Nat} (h : count < lastCount) : countAfter count = count + 1 := by
  unfold countAfter
  omega

theorem countAfter_lastCount : countAfter lastCount = lastCount := by
  decide

/-- The position as diagnostics show it: `source:[line,column]`. -/
def text (p : Position) : String :=
  p.source ++ ":[" ++ Integer.naturalText p.line ++ "," ++ Integer.naturalText p.column ++ "]"

end Position

end SqlForest
