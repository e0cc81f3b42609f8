import SqlForest.CommandLine

/-!
# The program

Reads the input file and prints the response to the command line.
-/

namespace SqlForest

/-- How the system describes an error. -/
def systemReason : IO.Error → String
  | .otherError code details | .resourceBusy code details | .resourceVanished code details
  | .unsupportedOperation code details | .hardwareFault code details
  | .unsatisfiedConstraints code details | .illegalOperation code details
  | .protocolError code details | .timeExpired code details | .interrupted _ code details
  | .noFileOrDirectory _ code details | .alreadyExists _ code details
  | .invalidArgument _ code details | .permissionDenied _ code details
  | .resourceExhausted _ code details | .inappropriateType _ code details
  | .noSuchThing _ code details => details ++ " (os error " ++ toString code ++ ")"
  | error => toString error

/-- Whether a path leads anywhere. -/
def resolves (path : String) : IO Bool := do
  return (← (IO.FS.realPath path).toBaseIO).isOk

/-- The content of the regular file that a path leads to, if it leads to one, or why the system does
not let the file be read. -/
def readRegularFile (path : String) : IO (Except String (Option ByteArray)) := do
  match ← (IO.FS.readBinFile path).toBaseIO with
  | .ok content => return .ok (some content)
  | .error error =>
    -- From a directory, but not from a file, a path leads on to the directory itself.
    if (← resolves path) && !(← resolves (path ++ "/.")) then return .error (systemReason error)
    else return .ok none

/-- The response to arguments, with the files and the environment of the process. -/
def respondTo (arguments : List String) : IO CommandLine.Response := do
  match CommandLine.read .initial arguments with
  | none => return CommandLine.usageError
  | some request =>
    let environment ← IO.getEnv CommandLine.renderingVariable
    let content ← match request.path? with
      | some path => readRegularFile path
      | none => pure (.ok none)
    return CommandLine.respond environment content request

end SqlForest

def main (arguments : List String) : IO UInt32 := do
  let response ← SqlForest.respondTo arguments
  (← IO.getStdout).putStr response.output
  return response.exitCode.toUInt32
