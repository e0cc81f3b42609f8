import SqlForest.Parse.Statement
import SqlForest.Token.OfText

/-!
# Reading a script

A script is a list of statements.  `Session` reads one statement after the other; a statement that
fails leaves the session at the token that does not fit.  To read a whole script the session skips
what is left of a failed statement, so that every statement is judged by itself: the answer is all
statements, or the diagnostics of all failed ones.
-/

namespace SqlForest

/-- The diagnostic of a failure among tokens that `finish` closes. -/
def Failure.diagnostic (failure : Failure) (finish : Token) : Diagnostic :=
  let found := failure.rest.headD finish
  ⟨found.position, .syntactic failure.fault found.quoted⟩

/-! ## Statement after statement -/

/-- The tokens behind the first semicolon. -/
def afterSemicolon : List Token → List Token
  | [] => []
  | token :: rest => if token.kind = .semicolon then rest else afterSemicolon rest

/-- Reads by a rule over and over, and skips to the next semicolon where it fails.  `budget` bounds
the number of readings: every one of them takes a token of its own. -/
def readings {α : Type} (rule : Rule α) :
    (budget tokens : List Token) → List (Except Failure α)
  | _ :: budget, token :: tokens =>
    match rule (token :: tokens) with
    | .ok (a, rest) => .ok a :: readings rule budget rest
    | .error failure => .error failure :: readings rule budget (afterSemicolon failure.rest)
  | _, _ => []

/-- All values, or all errors if there are any. -/
def gather {ε α : Type} (results : List (Except ε α)) : Except (List ε) (List α) :=
  let errors := results.filterMap fun
    | .error e => some e
    | .ok _ => none
  if errors.isEmpty then .ok (results.filterMap Except.toOption) else .error errors

/-! ## Sessions -/

/-- A reading in progress: the tokens that have not been read, and the one that closes them. -/
structure Session where
  rest : List Token
  finish : Token
deriving DecidableEq, Repr

namespace Session

/-- The rules for expressions of a statement. -/
def rules : Rules :=
  Rules.ofLevels maxDepth

/-- A session at the start of a stream. -/
def ofStream (s : TokenStream) : Session :=
  ⟨s.tokens, s.finish⟩

/-- Reads one statement. -/
def statement (s : Session) : Except Diagnostic Statement × Session :=
  match Rule.statement rules s.rest with
  | .ok (statement, rest) => (.ok statement, { s with rest := rest })
  | .error failure => (.error (failure.diagnostic s.finish), { s with rest := failure.rest })

/-- Reads all that is left as a script. -/
def script (s : Session) : Except (List Diagnostic) (List Statement) :=
  match gather (readings (Rule.statement rules) s.rest s.rest) with
  | .ok statements => .ok statements
  | .error failures => .error (failures.map fun failure => failure.diagnostic s.finish)

end Session

/-! ## Scripts -/

/-- Reads the statements of a token stream. -/
def TokenStream.script (s : TokenStream) : Except (List Diagnostic) (List Statement) :=
  (Session.ofStream s).script

/-- Reads the statements of a text.  A text with lexical faults is not read any further. -/
def readScript (source text : String) : Except (List Diagnostic) (List Statement) :=
  match TokenStream.ofText source text with
  | .ok stream => stream.script
  | .error diagnostics => .error diagnostics

/-! ## Sameness -/

/-- Whether two texts have the same tokens at the same positions, or the same lexical faults. -/
def sameTokens (a b : String) : Bool :=
  match TokenStream.ofText "" a, TokenStream.ofText "" b with
  | .ok s, .ok t => s.toList == t.toList
  | .error c, .error d => c == d
  | _, _ => false

/-- Whether two texts are read into the same statements, or have the same faults. -/
def sameScript (a b : String) : Bool :=
  match readScript "" a, readScript "" b with
  | .ok s, .ok t => s == t
  | .error c, .error d => c == d
  | _, _ => false

end SqlForest
