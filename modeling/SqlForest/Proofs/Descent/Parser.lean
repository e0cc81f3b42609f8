import SqlForest.Proofs.Grammar.Derivation

/-!
# Recursive descent with a cursor and a counter

`Parser` reads a stream the way a machine does.  It keeps the index of the token that comes next and
counts the levels of nesting.  Its routines move the cursor, raise the count (`Routine.descend`) and
put it back behind an expression.  A routine that fails leaves the cursor and the count as they are,
in the midst of whatever it was reading; only `Routine.statement` starts the count again.

The recursion is not bounded by anything but the guard of `descend`, and the loops end only because
tokens do.  So the routines are fixed points, and `none` is the outcome of a run that does not end.
It is also the outcome of a run that looks for a token where the stream has none.

A parser also keeps a record of the levels that it has gone down to.  No routine reads it; it is
there to say what happens in the course of a run.
-/

namespace SqlForest

open Grammar

/-! ## Parsers -/

/-- A level of nesting that has been entered, and where the cursor was then. -/
structure Entry where
  level : Nat
  current : Nat
deriving DecidableEq, Repr

/-- A reading of a stream in progress. -/
structure Parser where
  stream : TokenStream
  /-- The greatest level to which expressions may be nested, if there is one. -/
  limit : Option Nat
  /-- The index of the next token. -/
  current : Nat
  /-- The level of nesting that has been reached. -/
  depth : Nat
  /-- The levels that have been entered, the last one first. -/
  entered : List Entry

namespace Parser

/-- A parser at the start of a stream. -/
def ofStream (s : TokenStream) : Parser :=
  ⟨s, some maxDepth, 0, 0, []⟩

/-- The parser under another limit, or without one. -/
def under (p : Parser) (limit : Option Nat) : Parser :=
  { p with limit := limit }

/-- The parser once it has entered a level. -/
def enter (p : Parser) (level : Nat) : Parser :=
  { p with depth := level, entered := ⟨level, p.current⟩ :: p.entered }

/-- The token at the cursor.  There is none behind the one that closes the stream. -/
def next? (p : Parser) : Option Token :=
  p.stream.toList[p.current]?

/-- The next token, which is the one that closes the stream if there is no other. -/
def next (p : Parser) : Token :=
  p.stream.toList.getD p.current p.stream.finish

/-- The diagnostic of a fault at the next token. -/
def diagnostic (p : Parser) (fault : SyntaxFault) : Diagnostic :=
  ⟨p.next.position, .syntactic fault p.next.quoted⟩

end Parser

/-- What a parser can be asked to do. -/
abbrev Routine : Type → Type :=
  ExceptT Diagnostic (StateT Parser Option)

namespace Routine

variable {α : Type}

/-! ## Single tokens -/

/-- Looks at the token at the cursor. -/
def peek : Routine Token := fun p =>
  p.next?.map fun token => (.ok token, p)

/-- Goes past the next token, but not past the end of input. -/
def advance : Routine Unit := do
  if (← peek).kind = .endOfInput then pure ()
  else modify fun p => { p with current := p.current + 1 }

/-- Fails at the next token. -/
def refuse (fault : SyntaxFault) : Routine α := do
  let token ← peek
  throw ⟨token.position, .syntactic fault token.quoted⟩

/-- Takes the next token if `f` accepts it, and nothing otherwise. -/
def eat? (f : Token → Option α) : Routine (Option α) := do
  match f (← peek) with
  | some a =>
    advance
    pure (some a)
  | none => pure none

/-- Takes the next token, which `f` must accept. -/
def expect (f : Token → Option α) (what : Expectation) : Routine α := do
  match ← eat? f with
  | some a => pure a
  | none => refuse (.expected what)

/-- Takes a token of the given kind. -/
def kind (k : TokenKind) : Routine String :=
  expect (Token.lexemeOf? k) (.kind k)

/-- Takes the given keyword. -/
def keyword (k : Keyword) : Routine Unit :=
  expect (Token.isKeyword? k) (.keyword k)

/-- Takes a token of the given kind if it comes next, and tells whether it did. -/
def kind? (k : TokenKind) : Routine Bool := do
  return (← eat? (Token.lexemeOf? k)).isSome

/-- Takes the given keyword if it comes next, and tells whether it did. -/
def keyword? (k : Keyword) : Routine Bool := do
  return (← eat? (Token.isKeyword? k)).isSome

/-! ## Levels -/

/-- The level that has been reached. -/
def depth : Routine Nat := do
  return (← get).depth

/-- Goes back to a level. -/
def setDepth (level : Nat) : Routine Unit :=
  modify fun p => { p with depth := level }

/-- Goes to the level below, if there is one, and records it. -/
def descend : Routine Unit := do
  let p ← get
  if p.limit.any (· ≤ p.depth) then refuse .nestedTooDeeply
  else set (p.enter (p.depth + 1))

/-- Whatever comes of a run, the parser is back at the level. -/
def backAt (level : Nat) (run : Except Diagnostic α × Parser) : Except Diagnostic α × Parser :=
  (run.1, { run.2 with depth := level })

/-! ## Loops -/

/-- A loop that goes on from one state to another until it has a result. -/
structure Loop (σ β : Type) where
  step : σ → Routine (σ ⊕ β)

/-- Goes through a loop from a state on. -/
def Loop.run {σ β : Type} (loop : Loop σ β) (state : σ) : Routine β := do
  match ← loop.step state with
  | .inl further => loop |>.run further
  | .inr result => pure result
partial_fixpoint

end Routine

/-! ## Expressions -/

namespace Grammar

open Routine

mutual

/-- Reads a phrase. -/
def Phrase.routine : Phrase → Routine Expr
  | .expression => do
    let level ← depth
    descend
    let first ← Phrase.disjunct |>.routine
    let e ← Chain.disjunction |>.further first
    setDepth level
    pure e
  | .disjunct => Chain.conjunction |>.routine
  | .conjunct => do
    if ← keyword? .NOT then
      let operand ← Phrase.conjunct |>.nested
      pure (.unary .not operand)
    else Phrase.nullCheck |>.routine
  | .nullCheck => do
    let operand ← Phrase.comparison |>.routine
    if ← keyword? .IS then
      let negated ← keyword? .NOT
      keyword .NULL
      pure (.nullCheck operand negated)
    else pure operand
  | .comparison => Chain.comparison |>.routine
  | .comparable => Chain.sum |>.routine
  | .term => do
    let left ← Phrase.factor |>.routine
    match ← eat? (Token.operator? BinaryOp.products) with
    | some op =>
      let right ← Phrase.term |>.nested
      pure (.binary op left right)
    | none => pure left
  | .factor => do
    let token ← peek
    match token.kind with
    | .identifier =>
      let name ← kind .identifier
      if (← peek).kind = .leftParen then
        let arguments ← Phrase.expression |>.tuple
        pure (.call name arguments)
      else pure (.identifier name)
    | .leftParen =>
      advance
      let inner ← Phrase.expression |>.routine
      let _ ← kind .rightParen
      pure inner
    | .operator =>
      match UnaryOp.sign? token.lexeme with
      | some sign =>
        advance
        let operand ← Phrase.factor |>.nested
        pure (.unary sign operand)
      | none => refuse .notASign
    | .number =>
      match Integer.ofText? token.lexeme with
      | some value =>
        advance
        pure (.number value)
      | none => refuse .numberTooLong
    | .string =>
      advance
      pure (.string token.lexeme)
    | _ => refuse (.expected .expression)
partial_fixpoint

/-- Reads the operands of a chain and what joins them. -/
def Chain.routine (c : Chain) : Routine Expr := do
  let level ← depth
  let first ← c.operand |>.routine
  let e ← c |>.further first
  setDepth level
  pure e
partial_fixpoint

/-- Reads what follows a left operand of a chain.  Each operand is a level below the one before. -/
def Chain.further (c : Chain) (left : Expr) : Routine Expr := do
  match ← eat? c.operator? with
  | some op =>
    descend
    let right ← c.operand |>.routine
    c |>.further (.binary op left right)
  | none => pure left
partial_fixpoint

/-- Reads a phrase at the level below.  The level is put back whether the phrase is read or not. -/
def Phrase.nested (goal : Phrase) : Routine Expr := do
  let level ← depth
  descend
  fun p => backAt level <$> (goal |>.routine p)
partial_fixpoint

/-- Reads phrases in parentheses, or nothing in parentheses. -/
def Phrase.tuple (item : Phrase) : Routine (List Expr) := do
  let _ ← kind .leftParen
  if ← kind? .rightParen then pure []
  else
    let items ← item |>.items
    let _ ← kind .rightParen
    pure items
partial_fixpoint

/-- Reads phrases with commas between them. -/
def Phrase.items (item : Phrase) : Routine (List Expr) := do
  let first ← item |>.routine
  item |>.moreItems [first]
partial_fixpoint

/-- Reads further phrases, each behind a comma. -/
def Phrase.moreItems (item : Phrase) (read : List Expr) : Routine (List Expr) := do
  if ← kind? .comma then
    let e ← item |>.routine
    item |>.moreItems (e :: read)
  else pure read.reverse
partial_fixpoint

end

end Grammar

namespace Routine

/-! ## Statements -/

/-- A name. -/
def identifier : Routine String :=
  kind .identifier

/-- Further names, each behind a comma. -/
def moreIdentifiers : Loop (List String) (List String) where
  step read := do
    if ← kind? .comma then
      let name ← identifier
      pure (.inl (name :: read))
    else pure (.inr read.reverse)

/-- Names with commas between them. -/
def identifiers : Routine (List String) := do
  let first ← identifier
  moreIdentifiers.run [first]

/-- The name of a table, with a database and a period in front or without. -/
def tableName : Routine TableName := do
  let first ← identifier
  if ← kind? .period then
    let table ← identifier
    pure ⟨some first, table⟩
  else pure ⟨none, first⟩

/-- What follows a keyword, if the keyword comes next. -/
def clause? (word : Keyword) (content : Routine α) : Routine (Option α) := do
  if ← keyword? word then
    let a ← content
    pure (some a)
  else pure none

/-- The use of a database. -/
def useStatement : Routine Statement := do
  keyword .USE
  let database ← identifier
  let _ ← kind .semicolon
  pure (.use database)

/-- A query. -/
def selectStatement : Routine Statement := do
  keyword .SELECT
  let items ← Phrase.expression.items
  let source ← clause? .FROM tableName
  let condition ← clause? .WHERE Phrase.expression.routine
  let order ← clause? .ORDER (do
    keyword .BY
    Phrase.expression.routine)
  let _ ← kind .semicolon
  pure (.select ⟨items, source, condition, order⟩)

/-- An insertion. -/
def insertStatement : Routine Statement := do
  keyword .INSERT
  keyword .INTO
  let table ← tableName
  let _ ← kind .leftParen
  let columns ← identifiers
  let _ ← kind .rightParen
  keyword .VALUES
  let values ← Phrase.expression.tuple
  let _ ← kind .semicolon
  pure (.insert ⟨table, columns, values⟩)

/-- A deletion. -/
def deleteStatement : Routine Statement := do
  keyword .DELETE
  keyword .FROM
  let table ← tableName
  keyword .WHERE
  let condition ← Phrase.expression.routine
  let _ ← kind .semicolon
  pure (.delete ⟨table, condition⟩)

/-- A statement.  Its levels are counted from the first. -/
def statement : Routine Statement := do
  setDepth 0
  let token ← peek
  if token.kind = .keyword then
    match token.keyword? with
    | some .USE => useStatement
    | some .SELECT => selectStatement
    | some .INSERT => insertStatement
    | some .DELETE => deleteStatement
    | _ => refuse .unexpectedKeyword
  else refuse (.expected .statement)

/-! ## Scripts -/

/-- Goes past one token.  The loop ends behind a semicolon and at the end of input. -/
def recovery : Loop Unit Unit where
  step _ := do
    let token ← peek
    if token.kind = .endOfInput then pure (.inr ())
    else
      advance
      if token.kind = .semicolon then pure (.inr ()) else pure (.inl ())

/-- Goes past the next semicolon, or to the end of input. -/
def recover : Routine Unit :=
  recovery.run ()

/-- The statements that have been read and the diagnostics of those that have failed, the last ones
first. -/
structure Progress where
  read : List Statement
  failed : List Diagnostic

/-- Reads a statement, and recovers if it fails.  The loop ends at the end of input. -/
def statements : Loop Progress (List Statement × List Diagnostic) where
  step done := do
    if (← peek).kind = .endOfInput then pure (.inr (done.read.reverse, done.failed.reverse))
    else
      match ← tryCatch (Except.ok <$> statement) (fun d => pure (.error d)) with
      | .ok found => pure (.inl { done with read := found :: done.read })
      | .error d =>
        recover
        pure (.inl { done with failed := d :: done.failed })

end Routine

namespace Parser

/-- Reads one statement. -/
def statement (p : Parser) : Option (Except Diagnostic Statement × Parser) :=
  Routine.statement p

/-- Reads all that is left as a script. -/
def script (p : Parser) : Option (Except (List Diagnostic) (List Statement)) :=
  match Routine.statements.run ⟨[], []⟩ p with
  | some (.ok (found, []), _) => some (.ok found)
  | some (.ok (_, failed), _) => some (.error failed)
  | _ => none

/-- Reads one statement, and recovers if it fails. -/
def turn (p : Parser) : Option (Except Diagnostic Statement × Parser) :=
  match p.statement with
  | some (.ok found, q) => some (.ok found, q)
  | some (.error d, q) =>
    match Routine.recover q with
    | some (.ok _, r) => some (.error d, r)
    | _ => none
  | none => none

/-- What comes of statement after statement, up to the end of input. -/
def results (p : Parser) : Option (List (Except Diagnostic Statement)) := do
  let token ← p.next?
  if token.kind = .endOfInput then pure []
  else
    let run ← p.turn
    let later ← run.2 |>.results
    pure (run.1 :: later)
partial_fixpoint

/-- The parser after a number of statements has been asked of it, whatever came of them. -/
def afterCalls (p : Parser) : Nat → Option Parser
  | 0 => some p
  | count + 1 => (p.afterCalls count).bind fun q => q.statement.map Prod.snd

end Parser

end SqlForest
