import SqlForest.Text.Capitals

/-!
# Keywords

The reserved words.  A word is a keyword in any mixture of cases, so it is compared by its
capitals; `Keyword.spelling` is the one spelling that tokens carry.
-/

namespace SqlForest

/-- A reserved word. -/
inductive Keyword
  | AND
  | BY
  | DELETE
  | FROM
  | HAVING
  | INSERT
  | INTO
  | IS
  | NOT
  | NULL
  | OR
  | ORDER
  | SELECT
  | USE
  | VALUES
  | WHERE
deriving DecidableEq, Repr

namespace Keyword

/-- Every keyword, in alphabetical order. -/
def all : List Keyword :=
  [AND, BY, DELETE, FROM, HAVING, INSERT, INTO, IS, NOT, NULL, OR, ORDER, SELECT, USE, VALUES,
    WHERE]

/-- The canonical spelling. -/
def spelling : Keyword → String
  | AND => "AND"
  | BY => "BY"
  | DELETE => "DELETE"
  | FROM => "FROM"
  | HAVING => "HAVING"
  | INSERT => "INSERT"
  | INTO => "INTO"
  | IS => "IS"
  | NOT => "NOT"
  | NULL => "NULL"
  | OR => "OR"
  | ORDER => "ORDER"
  | SELECT => "SELECT"
  | USE => "USE"
  | VALUES => "VALUES"
  | WHERE => "WHERE"

/-- The keyword that a word spells in some mixture of cases. -/
def ofWord? (word : String) : Option Keyword :=
  all.find? fun keyword => keyword.spelling = Text.inCapitals word

theorem mem_all (keyword : Keyword) : keyword ∈ all := by
  cases keyword <;> decide

/-- Two keywords are never spelled alike. -/
theorem spelling_injective {k l : Keyword} (h : k.spelling = l.spelling) : k = l := by
  revert h
  cases k <;> cases l <;> decide

/-- A keyword is found by its canonical spelling. -/
theorem ofWord?_spelling (keyword : Keyword) : ofWord? keyword.spelling = some keyword := by
  cases keyword <;> decide

/-- Case is folded beyond ASCII: the long s has the capital S. -/
example : ofWord? "ſeLect" = some SELECT := by decide

end Keyword

end SqlForest
