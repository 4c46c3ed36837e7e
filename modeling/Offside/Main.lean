import Offside.CommandLine.Run

/-!
# The program

Reads the file that the arguments name, prints the answer and exits with its status.
-/

namespace Offside.CommandLine

/-- Why the file system did not give a file. -/
def readErrorOf : IO.Error → ReadError
  | .noFileOrDirectory .. => .missing
  | .inappropriateType .. => .directory
  | error => .other (toString error)

/-- The text of a file, or why there is none. -/
def readText (file : String) : IO (Except ReadError String) := do
  try
    let bytes ← IO.FS.readBinFile file
    match String.fromUTF8? bytes with
    | some text => return .ok text
    | none => return .error .notText
  catch error => return .error (readErrorOf error)

/-- The answer to a request, for which at most one file is read. -/
def answer (request : Request) : IO Response := do
  match request with
  | .run options =>
    let text ← readText options.file
    return respond (fun _ => text) request
  | _ => return respond (fun _ => .error .missing) request

end Offside.CommandLine

open Offside CommandLine

/-- Runs the command line. -/
def main (arguments : List String) : IO UInt32 := do
  let response ← answer (Request.ofArguments arguments)
  (← IO.getStdout).putStr response.output
  return UInt32.ofNat response.status
