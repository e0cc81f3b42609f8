import SqlForest.Token

/-!
# Diagnostics

What can be wrong with a source text, and how it is reported.  A lexical fault is found while the
text is cut into tokens, a syntactic fault while the tokens are read as statements.  A diagnostic
is a fault at a position.
-/

namespace SqlForest

/-- The number of levels to which expressions may be nested. -/
def maxDepth : Nat := 100

/-! ## Faults -/

/-- Why a text cannot be cut into tokens. -/
inductive LexicalFault
  /-- No token starts with this character. -/
  | invalidToken (c : Char)
  /-- A letter or the like follows the digits of a number. -/
  | lumpedNumber
  /-- The digits denote a number beyond 64 bits. -/
  | numberTooLong (digits : String)
  /-- A run of operator characters that is no operator. -/
  | invalidOperator (run : String)
  /-- A line ends inside a string. -/
  | multilineString
  /-- No escape sequence is written with this character. -/
  | invalidEscape (c : Char)
  /-- The text ends inside a string. -/
  | unterminatedString
deriving DecidableEq, Repr

/-- What the grammar asks for at some place. -/
inductive Expectation
  | statement
  | kind (kind : TokenKind)
  | keyword (keyword : Keyword)
  | expression
deriving DecidableEq, Repr

/-- Why a token does not fit the grammar. -/
inductive SyntaxFault
  /-- The token is not what must stand here. -/
  | expected (what : Expectation)
  /-- No statement starts with this keyword. -/
  | unexpectedKeyword
  /-- The operator is not a sign, so no expression starts with it. -/
  | notASign
  /-- The number does not fit 64 bits. -/
  | numberTooLong
  /-- The expression would be nested beyond `maxDepth`. -/
  | nestedTooDeeply
deriving DecidableEq, Repr

/-- Why a text is refused; a syntactic fault quotes the token that does not fit. -/
inductive Fault
  | lexical (fault : LexicalFault)
  | syntactic (fault : SyntaxFault) (found : Quoted)
deriving DecidableEq, Repr

/-! ## Messages -/

/-- The message of a lexical fault. -/
def LexicalFault.message : LexicalFault → String
  | invalidToken c => "Invalid token: `" ++ c.toString ++ "`"
  | lumpedNumber => "Number lumped together with identifier characters"
  | numberTooLong digits => "Number too long: `" ++ digits ++ "`"
  | invalidOperator run => "Invalid operator: `" ++ run ++ "`"
  | multilineString => "Multiline strings not supported"
  | invalidEscape c => "Invalid escape sequence: \\" ++ c.toString
  | unterminatedString => "Unterminated string"

/-- What is expected, in words. -/
def Expectation.text : Expectation → String
  | statement => "USE, SELECT, INSERT or DELETE at start of a statement"
  | kind k => k.description
  | keyword k => "keyword `" ++ k.spelling ++ "`"
  | expression => "an expression"

/-- The message of a syntactic fault at a token. -/
def SyntaxFault.message (found : Quoted) : SyntaxFault → String
  | expected what => "Expected " ++ what.text ++ ", but found " ++ found.text
  | unexpectedKeyword => "Unexpected keyword at start of a statement: " ++ found.text
  | notASign => "Invalid operator at start of a factor: " ++ found.text
  | numberTooLong => "Number too long: " ++ found.text
  | nestedTooDeeply =>
    "Expression nested too deeply at " ++ found.text ++ ", the maximum depth is "
      ++ Integer.naturalText maxDepth

/-- The message of a fault. -/
def Fault.message : Fault → String
  | lexical fault => fault.message
  | syntactic fault found => fault.message found

/-! ## Diagnostics -/

/-- A fault and where it was found. -/
structure Diagnostic where
  position : Position
  fault : Fault
deriving DecidableEq, Repr

namespace Diagnostic

/-- A position and what there is to say about it. -/
def textAt (position : Position) (message : String) : String :=
  position.text ++ " " ++ message

/-- The line of a report that says something about a position. -/
def reportLineAt (position : Position) (message : String) : String :=
  "[ERROR] " ++ textAt position message

/-- The message of a diagnostic, without its position. -/
def message (d : Diagnostic) : String :=
  d.fault.message

/-- The line of a report for a diagnostic. -/
def reportLine (d : Diagnostic) : String :=
  reportLineAt d.position d.message

end Diagnostic

end SqlForest
