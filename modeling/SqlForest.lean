import SqlForest.Text.Alphabetic
import SqlForest.Text.Numeric
import SqlForest.Text.Blank
import SqlForest.Text.Capitals
import SqlForest.Text.Integer
import SqlForest.Position
import SqlForest.Keyword
import SqlForest.Token
import SqlForest.Diagnostic
import SqlForest.Token.Stream
import SqlForest.Token.Scanner
import SqlForest.Token.OfText
import SqlForest.Operator
import SqlForest.Expr
import SqlForest.Postfix
import SqlForest.Statement
import SqlForest.Parse.Rule
import SqlForest.Parse.Expression
import SqlForest.Parse.Statement
import SqlForest.Parse.Script
import SqlForest.Statement.Dump
import SqlForest.Json
import SqlForest.Statement.Json
import SqlForest.Graph
import SqlForest.Statement.Diagram
import SqlForest.Report
import SqlForest.FileTree
import SqlForest.CommandLine
import SqlForest.Main
import SqlForest.Proofs.Gather
import SqlForest.Proofs.Token.LongestMatch
import SqlForest.Proofs.Token.Agreement
import SqlForest.Proofs.Rule.Sequence
import SqlForest.Proofs.Rule.Lookahead
import SqlForest.Proofs.Rule.Language
import SqlForest.Proofs.Grammar.Derivation
import SqlForest.Proofs.Grammar.Lookahead
import SqlForest.Proofs.Grammar.Soundness
import SqlForest.Proofs.Grammar.Reach
import SqlForest.Proofs.Grammar.Completeness
import SqlForest.Proofs.Grammar.Tokens
import SqlForest.Proofs.Script.Readings
import SqlForest.Proofs.Script.Sentences
import SqlForest.Proofs.Script.Segments
import SqlForest.Proofs.Script.FirstFault
import SqlForest.Proofs.Token.Findings
import SqlForest.Proofs.Token.Motion
import SqlForest.Proofs.Token.LineBreak
import SqlForest.Proofs.Token.Offset
import SqlForest.Proofs.Rule.Naturality
import SqlForest.Proofs.Grammar.Naturality
import SqlForest.Proofs.Script.LineBreak
import SqlForest.Proofs.Grammar.Levels
import SqlForest.Proofs.Text.Integer
import SqlForest.Proofs.Token.Lexeme
import SqlForest.Proofs.Printing.Lexemes
import SqlForest.Proofs.Printing.Derivation
import SqlForest.Proofs.Printing.RoundTrip
import SqlForest.Proofs.Descent.Parser
import SqlForest.Proofs.Descent.Agreement
import SqlForest.Proofs.Descent.History
import SqlForest.Proofs.Grammar.Faults
import SqlForest.Proofs.Script.Faults
import SqlForest.Proofs.Printing.Accepted
import SqlForest.Proofs.Expr
import SqlForest.Proofs.Printing.Dump
import SqlForest.Proofs.Json.Grammar
import SqlForest.Proofs.Printing.Ambiguity
import SqlForest.Proofs.Json.Text
import SqlForest.Proofs.Json.Reader
import SqlForest.Proofs.Json.Decode
import SqlForest.Proofs.Json.RoundTrip
import SqlForest.Proofs.Token.Spelling
import SqlForest.Proofs.Grammar.Height
import SqlForest.Proofs.Script.Layout
import SqlForest.Proofs.Grammar.Spending
import SqlForest.Proofs.Descent.Lockstep
import SqlForest.Proofs.Descent.Phrases
import SqlForest.Proofs.Descent.Statements
import SqlForest.Proofs.Descent.Guard
import SqlForest.Proofs.Printing.Contents
import SqlForest.Proofs.Diagram.Numbering
import SqlForest.Proofs.Diagram.Reading
import SqlForest.Proofs.Diagram.Shown
import SqlForest.Proofs.Diagram.Unquoted
import SqlForest.Proofs.Diagram.Forest
import SqlForest.Proofs.Report.Messages
import SqlForest.Proofs.Report.Lines
import SqlForest.Proofs.Token.Cut
import SqlForest.Proofs.Token.Letters
import SqlForest.Proofs.Script.Letters
import SqlForest.Proofs.Text.Literal
import SqlForest.Proofs.Token.Digits
import SqlForest.Proofs.Grammar.Numbers
import SqlForest.Proofs.Script.Numbers
import SqlForest.Proofs.Descent.Termination
import SqlForest.Proofs.Token.Steps
import SqlForest.Proofs.Descent.Budget
import SqlForest.Proofs.Descent.Siblings
