import SqlForest.Parse.Script
import SqlForest.Statement.Diagram
import SqlForest.Statement.Dump
import SqlForest.Statement.Json

/-!
# Reports

What comes of a source text: its forest in the chosen form, or a line for each diagnostic and a
line that counts them.
-/

namespace SqlForest

/-! ## Renderings -/

/-- A form in which forests are written. -/
inductive Rendering
  | text
  | dot
  | json
deriving DecidableEq, Repr

namespace Rendering

/-- The name of a rendering. -/
def name : Rendering → String
  | text => "text"
  | dot => "dot"
  | json => "json"

/-- The rendering that has the given name. -/
def ofName? (name : String) : Option Rendering :=
  [text, dot, json].find? fun r => r.name = name

/-- A forest as a rendering writes it. -/
def write : Rendering → List Statement → String
  | text => Statement.dumpAll
  | dot => Statement.dotText
  | json => Statement.jsonText

end Rendering

/-! ## Outcomes -/

/-- What comes of a source text. -/
inductive Outcome
  | rendered (output : String)
  | failed (diagnostics : List Diagnostic)
deriving DecidableEq, Repr

namespace Outcome

/-- Reads a source text and renders its forest. -/
def ofText (source text : String) (rendering : Rendering) : Outcome :=
  match readScript source text with
  | .ok forest => rendered (rendering.write forest)
  | .error diagnostics => failed diagnostics

/-- The exit code of an outcome. -/
def exitCode : Outcome → Nat
  | rendered _ => 0
  | failed _ => 101

/-- The lines that report diagnostics. -/
def reportLines (diagnostics : List Diagnostic) : List String :=
  diagnostics.map Diagnostic.reportLine ++
    ["There were " ++ Integer.naturalText diagnostics.length ++ " errors"]

/-- The report of an outcome. -/
def report : Outcome → String
  | rendered output => output
  | failed diagnostics => "\n".intercalate (reportLines diagnostics)

end Outcome

/-! ## Files -/

/-- Why there is no outcome for a path. -/
inductive InputError
  /-- The path leads to no regular file. -/
  | notFound (path : String)
  /-- The content of the file is not UTF-8. -/
  | notText
deriving DecidableEq, Repr

namespace InputError

/-- The exit code of an error. -/
def exitCode : InputError → Nat
  | notFound _ => 3
  | notText => 4

/-- The message about a file that is there and cannot be read. -/
def readMessage (reason : String) : String :=
  "Error occurred while reading input file: " ++ reason

/-- The message of an error. -/
def message : InputError → String
  | notFound path => "Input file does not exist: `" ++ path ++ "`"
  | notText => readMessage "stream did not contain valid UTF-8"

end InputError

/-- The outcome for the file that a path leads to, if any.  The path names the source. -/
def Outcome.ofFile (path : String) (content : Option ByteArray) (rendering : Rendering) :
    Except InputError Outcome :=
  match content with
  | none => .error (.notFound path)
  | some bytes =>
    match String.fromUTF8? bytes with
    | none => .error .notText
    | some text => .ok (.ofText path text rendering)

end SqlForest
