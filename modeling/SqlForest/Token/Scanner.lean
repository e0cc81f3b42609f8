import SqlForest.Text.Alphabetic
import SqlForest.Text.Numeric
import SqlForest.Text.Blank
import SqlForest.Diagnostic
import SqlForest.Token.Stream

/-!
# The scanner

Cuts a text into tokens with a finite automaton that is fed one character after the other.  A
scanner waits for a token (`Mode.idle`) or is inside one.  The character that ends a word, a number
or an operator is not part of it: the scanner hands it back, and takes it again while it waits for
the next token.

A fault ends the token it is found in and the scan goes on, so that one scan reports every fault.
-/

namespace SqlForest

/-! ## Character classes -/

/-- Whether a character can start a word. -/
def isWordStart (c : Char) : Bool :=
  Text.isAlphabetic c || c = '_' || c = '$'

/-- Whether a character can go on a word. -/
def isWordPart (c : Char) : Bool :=
  Text.isAlphabetic c || Text.isNumeric c || c = '_' || c = '$'

/-- Whether a backslash and this character form an escape sequence. -/
def isEscapable (c : Char) : Bool :=
  c ∈ ['"', 'n', 'r', 'b', 'f', '\\']

/-- Whether a character ends a line, which no string may span. -/
def isLineEnd (c : Char) : Bool :=
  c = '\r' || c = '\n'

/-- The kind of the tokens that one character is enough for. -/
def punctuation? : Char → Option TokenKind
  | '(' => some .leftParen
  | ')' => some .rightParen
  | ',' => some .comma
  | '.' => some .period
  | ';' => some .semicolon
  | _ => none

/-! ## Scanners -/

/-- What a scanner is inside of. -/
inductive Mode
  | idle
  | word
  | digits
  | quoted
  | escape
  | operator
deriving DecidableEq, Repr

/-- A scan in progress.  `line` and `column` are those of the next character; `pending` holds the
characters of the token that has been begun, at `startColumn`.  A token never spans lines, so its
line is the current one.  The three lists have their newest member first. -/
structure Scanner where
  source : String
  mode : Mode
  line : Nat
  column : Nat
  startColumn : Nat
  pending : List Char
  tokens : List Token
  diagnostics : List Diagnostic
deriving Repr

/-- What becomes of the character that a scanner is fed. -/
inductive Step
  /-- The character has been used up. -/
  | consumed (next : Scanner)
  /-- The character has only ended a token and is still to be scanned. -/
  | handedBack (next : Scanner)

/-- The scanner after a step. -/
def Step.next : Step → Scanner
  | consumed next => next
  | handedBack next => next

namespace Scanner

/-- The scanner at the start of a text. -/
def start (source : String) : Scanner where
  source := source
  mode := .idle
  line := 1
  column := 1
  startColumn := 1
  pending := []
  tokens := []
  diagnostics := []

/-- The position of the next character. -/
def position (s : Scanner) : Position :=
  ⟨s.source, s.line, s.column⟩

/-- The position where the token in progress starts. -/
def startPosition (s : Scanner) : Position :=
  ⟨s.source, s.line, s.startColumn⟩

/-- The characters of the token in progress, in the order of the text. -/
def lexeme (s : Scanner) : List Char :=
  s.pending.reverse

/-- Begins a token at the next character. -/
def begin (s : Scanner) : Scanner :=
  { s with startColumn := s.column, pending := [] }

/-- Goes past a character of the current line, which joins the token in progress. -/
def advance (s : Scanner) (c : Char) : Scanner :=
  { s with column := Position.countAfter s.column, pending := c :: s.pending }

/-- Goes past the end of a line. -/
def advanceLine (s : Scanner) : Scanner :=
  { s with line := Position.countAfter s.line, column := 1 }

/-- Continues in another mode. -/
def enter (s : Scanner) (mode : Mode) : Scanner :=
  { s with mode := mode }

/-- Adds a token that starts where the token in progress does. -/
def push (s : Scanner) (kind : TokenKind) (lexeme : List Char) : Scanner :=
  { s with tokens := ⟨kind, String.ofList lexeme, s.startPosition⟩ :: s.tokens }

/-- Reports a fault at a position. -/
def reject (s : Scanner) (position : Position) (fault : LexicalFault) : Scanner :=
  { s with diagnostics := ⟨position, .lexical fault⟩ :: s.diagnostics }

/-- Reports a fault of the token in progress. -/
def rejectToken (s : Scanner) (fault : LexicalFault) : Scanner :=
  s.reject s.startPosition fault

/-- Reports a fault of the next character. -/
def rejectChar (s : Scanner) (fault : LexicalFault) : Scanner :=
  s.reject s.position fault

/-! ## The ends of tokens -/

/-- Ends a word, which is a keyword or an identifier. -/
def finishWord (s : Scanner) : Scanner :=
  match Keyword.ofWord? (String.ofList s.lexeme) with
  | some keyword => s.push .keyword keyword.spelling.toList
  | none => s.push .identifier s.lexeme

/-- Ends a number, which must fit 64 bits. -/
def finishDigits (s : Scanner) : Scanner :=
  match Integer.ofText? (String.ofList s.lexeme) with
  | some _ => s.push .number s.lexeme
  | none => s.rejectToken (.numberTooLong (String.ofList s.lexeme))

/-- Ends a run of operator characters, which must be an operator. -/
def finishOperator (s : Scanner) : Scanner :=
  if String.ofList s.lexeme ∈ operators then s.push .operator s.lexeme
  else s.rejectToken (.invalidOperator (String.ofList s.lexeme))

/-- Ends a string.  Its token has the characters between the quotes. -/
def finishQuoted (s : Scanner) : Scanner :=
  s.push .string s.lexeme.tail.dropLast

/-! ## Steps -/

/-- Takes a character between tokens. -/
def takeIdle (s : Scanner) (c : Char) : Scanner :=
  if c = '\n' then s.begin.advanceLine
  else if Text.isBlank c then s.begin.advance c
  else if isWordStart c then (s.begin.advance c).enter .word
  else if c.isDigit then (s.begin.advance c).enter .digits
  else if c = '"' then (s.begin.advance c).enter .quoted
  else if isOperatorChar c then (s.begin.advance c).enter .operator
  else match punctuation? c with
    | some kind => (s.begin.advance c).push kind [c]
    | none => (s.begin.advance c).rejectToken (.invalidToken c)

/-- Feeds a character to the automaton. -/
def step (s : Scanner) (c : Char) : Step :=
  match s.mode with
  | .idle => .consumed (s.takeIdle c)
  | .word =>
    if isWordPart c then .consumed (s.advance c)
    else .handedBack (s.finishWord.enter .idle)
  | .digits =>
    if c.isDigit then .consumed (s.advance c)
    else if isWordPart c then .handedBack ((s.rejectChar .lumpedNumber).enter .idle)
    else .handedBack (s.finishDigits.enter .idle)
  | .quoted =>
    if c = '"' then .consumed ((s.advance c).finishQuoted.enter .idle)
    else if c = '\\' then .consumed ((s.advance c).enter .escape)
    else if isLineEnd c then .handedBack ((s.rejectChar .multilineString).enter .idle)
    else .consumed (s.advance c)
  | .escape =>
    if isLineEnd c then .handedBack ((s.rejectChar .multilineString).enter .idle)
    else if isEscapable c then .consumed ((s.advance c).enter .quoted)
    else .consumed (((s.rejectChar (.invalidEscape c)).advance c).enter .quoted)
  | .operator =>
    if isOperatorChar c then .consumed (s.advance c)
    else .handedBack (s.finishOperator.enter .idle)

/-- Scans a character.  One that is handed back is taken as the first after the ended token. -/
def feed (s : Scanner) (c : Char) : Scanner :=
  match s.step c with
  | .consumed next => next
  | .handedBack next => next.takeIdle c

/-- Scans characters in order. -/
def feedAll (s : Scanner) (text : List Char) : Scanner :=
  text.foldl feed s

/-- Ends the token in progress at the end of the text. -/
def finish (s : Scanner) : Scanner :=
  match s.mode with
  | .idle => s
  | .word => s.finishWord.enter .idle
  | .digits => s.finishDigits.enter .idle
  | .quoted | .escape => (s.rejectChar .unterminatedString).enter .idle
  | .operator => s.finishOperator.enter .idle

end Scanner

end SqlForest
