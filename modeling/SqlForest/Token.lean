import SqlForest.Keyword
import SqlForest.Position

/-!
# Tokens

A token is a kind, a lexeme and the position where it starts.  The lexeme of a string stands
without its quotes and keeps its escapes; the lexeme of a keyword is its canonical spelling.
-/

namespace SqlForest

/-- What a token is. -/
inductive TokenKind
  | keyword
  | identifier
  | number
  | string
  | comma
  | period
  | semicolon
  | leftParen
  | rightParen
  | operator
  | endOfInput
deriving DecidableEq, Repr

namespace TokenKind

/-- Every kind of token. -/
def all : List TokenKind :=
  [keyword, identifier, number, string, comma, period, semicolon, leftParen, rightParen, operator,
    endOfInput]

/-- The kind as messages name it. -/
def description : TokenKind → String
  | keyword => "keyword"
  | identifier => "identifier"
  | number => "number"
  | string => "string literal"
  | comma => "`,`"
  | period => "`.`"
  | semicolon => "`;`"
  | leftParen => "`(`"
  | rightParen => "`)`"
  | operator => "operator"
  | endOfInput => "end of input"

end TokenKind

/-- A piece of the source text that the grammar takes as one. -/
structure Token where
  kind : TokenKind
  lexeme : String
  position : Position
deriving DecidableEq, Repr

namespace Token

/-- The keyword that a token stands for, if it is a keyword. -/
def keyword? (t : Token) : Option Keyword :=
  if t.kind = .keyword then Keyword.ofWord? t.lexeme else none

end Token

/-- A token as messages quote it. -/
inductive Quoted
  | lexeme (text : String)
  | endOfInput
deriving DecidableEq, Repr

namespace Quoted

/-- The text of a quoted token: its lexeme between backquotes. -/
def text : Quoted → String
  | lexeme text => "`" ++ text ++ "`"
  | endOfInput => "end of input"

end Quoted

/-- The token as messages quote it. -/
def Token.quoted (t : Token) : Quoted :=
  if t.kind = .endOfInput then .endOfInput else .lexeme t.lexeme

/-! ## Operators -/

/-- The operators of the language. -/
def operators : List String :=
  ["=", "!=", "<", ">", "<=", ">=", "!<", "!>", "+", "-", "*", "/", "%"]

/-- Whether operators are written with a character. -/
def isOperatorChar (c : Char) : Bool :=
  c ∈ ['=', '!', '<', '>', '+', '-', '*', '/', '%']

/-- Operators are made of operator characters only. -/
theorem isOperatorChar_of_mem_operators {op : String} (h : op ∈ operators) {c : Char}
    (hc : c ∈ op.toList) : isOperatorChar c := by
  have all : (operators.all fun op => op.toList.all isOperatorChar) = true := by decide
  exact List.all_eq_true.mp (List.all_eq_true.mp all op h) c hc

end SqlForest
