import SqlForest.Report

/-!
# The command line

The arguments name one input file and may choose a rendering.  They are taken in order, and the
first that does not fit decides; asking for the version ends the reading of arguments as well.

An option is checked as soon as the next argument begins, so a missing or a wrong value is found
before what follows it.
-/

namespace SqlForest.CommandLine

/-- What the arguments ask for. -/
inductive Request
  /-- Show the version. -/
  | version
  /-- Render the file at `path`. -/
  | render (path : String) (rendering : Option Rendering)
deriving DecidableEq, Repr

/-- What has been read from the arguments so far. -/
structure Choices where
  rendering : Option Rendering
  verbose : Bool
  path : Option String
deriving DecidableEq, Repr

namespace Choices

/-- Nothing has been read. -/
def initial : Choices :=
  ⟨none, false, none⟩

/-- Chooses a rendering by its name.  That is done once at most. -/
def chooseRendering (c : Choices) (name : String) : Option Choices :=
  match c.rendering, Rendering.ofName? name with
  | none, some rendering => some { c with rendering := some rendering }
  | _, _ => none

/-- Turns logging on.  That is done once at most. -/
def beVerbose (c : Choices) : Option Choices :=
  if c.verbose then none else some { c with verbose := true }

/-- Takes the path of the input, which is not empty.  There is one path only. -/
def takePath (c : Choices) (path : String) : Option Choices :=
  if c.path.isSome ∨ path = "" then none else some { c with path := some path }

/-- What the choices ask for when all arguments have been read. -/
def request? (c : Choices) : Option Request :=
  c.path.map fun path => .render path c.rendering

end Choices

/-- How an argument that begins with one dash goes on. -/
inductive Cluster
  /-- All its letters were flags. -/
  | done (choices : Choices)
  /-- The last letter was an option whose value is the next argument. -/
  | wantsValue (choices : Choices)
  /-- A letter asks for the version. -/
  | version
  /-- A letter does not fit. -/
  | refused

/-- Reads the letters behind a dash.  The letters behind `f` are its value, without an equals sign
in front of them. -/
def readCluster (c : Choices) : List Char → Cluster
  | [] => .done c
  | 'v' :: letters =>
    match c.beVerbose with
    | some c => readCluster c letters
    | none => .refused
  | 'V' :: _ => .version
  | ['f'] => .wantsValue c
  | 'f' :: letters =>
    let value := match letters with
      | '=' :: value => value
      | value => value
    match c.chooseRendering (String.ofList value) with
    | some c => .done c
    | none => .refused
  | _ => .refused

/-- Whether an argument begins like an option.  A dash by itself is a path. -/
def looksLikeOption (argument : List Char) : Bool :=
  match argument with
  | '-' :: _ :: _ => true
  | _ => false

/-- Reads the paths behind two dashes. -/
def readPaths (c : Choices) : List String → Option Request
  | [] => c.request?
  | path :: rest => (c.takePath path).bind fun c => readPaths c rest

/-- Reads the arguments.  The answer is `none` if they do not fit. -/
def read (c : Choices) : List String → Option Request
  | [] => c.request?
  | argument :: rest =>
    match argument.toList with
    | ['-', '-'] => readPaths c rest
    | '-' :: '-' :: long =>
      if long = "version".toList then some .version
      else if long = "verbose".toList then c.beVerbose.bind fun c => read c rest
      else if long = "format".toList then
        match rest with
        | value :: rest =>
          if looksLikeOption value.toList then none
          else (c.chooseRendering value).bind fun c => read c rest
        | [] => none
      else if "format=".toList.isPrefixOf long then
        (c.chooseRendering (String.ofList (long.drop 7))).bind fun c => read c rest
      else none
    | '-' :: letter :: letters =>
      match readCluster c (letter :: letters) with
      | .done c => read c rest
      | .wantsValue c =>
        match rest with
        | value :: rest =>
          if looksLikeOption value.toList then none
          else (c.chooseRendering value).bind fun c => read c rest
        | [] => none
      | .version => some .version
      | .refused => none
    | _ => (c.takePath argument).bind fun c => read c rest

/-! ## Answers -/

/-- What the program does: its exit code and its standard output. -/
structure Response where
  exitCode : Nat
  output : String
deriving DecidableEq, Repr

/-- The response to arguments that do not fit. -/
def usageError : Response :=
  ⟨2, ""⟩

/-- The response when the system does not let the file be read. -/
def readError (reason : String) : Response :=
  ⟨4, InputError.readMessage reason ++ "\n"⟩

/-- The name of the program and its version. -/
def versionText : String :=
  "oxide-subsql 0.1.0"

/-- The variable of the environment that chooses a rendering where the arguments do not. -/
def renderingVariable : String :=
  "OXIDE_SUBSQL_FORMAT"

/-- The rendering to use: the chosen one, else the one of the environment, else text. -/
def renderingFor (chosen : Option Rendering) (environment : Option String) : Option Rendering :=
  match chosen, environment with
  | some rendering, _ => some rendering
  | none, some name => Rendering.ofName? name
  | none, none => some .text

/-- The file that a request needs. -/
def Request.path? : Request → Option String
  | version => none
  | render path _ => some path

/-- The response to a request, given the content of the file that it needs, or why the system does
not let the file be read. -/
def respond (environment : Option String) (content : Except String (Option ByteArray)) :
    Request → Response
  | .version => ⟨0, versionText ++ "\n"⟩
  | .render path chosen =>
    match renderingFor chosen environment, content with
    | none, _ => usageError
    | some _, .error reason => readError reason
    | some rendering, .ok content =>
      match Outcome.ofFile path content rendering with
      | .ok outcome => ⟨outcome.exitCode, outcome.report ++ "\n"⟩
      | .error error => ⟨error.exitCode, error.message ++ "\n"⟩

/-- The response to arguments, given what a path leads to. -/
def run (environment : Option String) (find? : String → Option ByteArray)
    (arguments : List String) : Response :=
  match read Choices.initial arguments with
  | some request => respond environment (.ok (request.path?.bind find?)) request
  | none => usageError

end SqlForest.CommandLine
