import SqlForest.Statement
import SqlForest.Parse.Expression

/-!
# Rules for statements

Each statement starts with a keyword of its own and ends with a semicolon.  Its expressions may be
nested to `levels` levels, each expression counted by itself.
-/

namespace SqlForest

namespace Rule

/-- The name of a table, with a database and a period in front or without. -/
def tableName : Rule TableName := do
  let first ← identifier
  if ← kind? .period then
    let table ← identifier
    pure ⟨some first, table⟩
  else pure ⟨none, first⟩

/-- What follows a keyword, if the keyword comes next. -/
def clause? {α : Type} (word : Keyword) (rule : Rule α) : Rule (Option α) := do
  if ← keyword? word then some <$> rule else pure none

/-- The semicolon at the end of a statement. -/
def terminator : Rule Unit := do
  let _ ← kind .semicolon

/-- The use of a database, without its keyword. -/
def useBody : Rule Statement := do
  let database ← identifier
  terminator
  pure (.use database)

/-- A query, without its keyword. -/
def selectBody (levels : Rules) : Rule Statement := do
  let items ← commaSeparated (expression levels)
  let source ← clause? .FROM tableName
  let condition ← clause? .WHERE (expression levels)
  let order ← clause? .ORDER (do
    keyword .BY
    expression levels)
  terminator
  pure (.select ⟨items, source, condition, order⟩)

/-- An insertion, without its keyword. -/
def insertBody (levels : Rules) : Rule Statement := do
  keyword .INTO
  let table ← tableName
  let _ ← kind .leftParen
  let columns ← commaSeparated identifier
  let _ ← kind .rightParen
  keyword .VALUES
  let values ← tuple levels
  terminator
  pure (.insert ⟨table, columns, values⟩)

/-- A deletion, without its keyword. -/
def deleteBody (levels : Rules) : Rule Statement := do
  keyword .FROM
  let table ← tableName
  keyword .WHERE
  let condition ← expression levels
  terminator
  pure (.delete ⟨table, condition⟩)

/-- A statement. -/
def statement (levels : Rules) : Rule Statement
  | [] => .error ⟨[], .expected .statement⟩
  | token :: rest =>
    if token.kind = .keyword then
      match token.keyword? with
      | some .USE => useBody rest
      | some .SELECT => selectBody levels rest
      | some .INSERT => insertBody levels rest
      | some .DELETE => deleteBody levels rest
      | _ => .error ⟨token :: rest, .unexpectedKeyword⟩
    else .error ⟨token :: rest, .expected .statement⟩

end Rule

end SqlForest
