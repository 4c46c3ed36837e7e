import Offside.Canonical.Tree
import Offside.CommandLine.Arguments
import Offside.Entry
import Offside.Outline.Tree
import Offside.Reading

/-!
# Runs of the command line

A run reads one file and answers a text for the standard output and an exit status: zero for
success, one for what is wrong with the file, two for arguments that ask for nothing.

Specification §10.9.
-/

namespace Offside.CommandLine

/-- Why a file could not be read as text. -/
inductive ReadError where
  | missing
  | directory
  | notInDirectory
  | notText
  /-- Any other reason, in words. -/
  | other (reason : String)
  deriving DecidableEq, Inhabited

/-- The reason as messages show it. -/
def ReadError.message : ReadError → String
  | missing => "No such file or directory (os error 2)"
  | directory => "Is a directory (os error 21)"
  | notInDirectory => "Not a directory (os error 20)"
  | notText => "stream did not contain valid UTF-8"
  | other reason => reason

/-- The answer to a command line. -/
structure Response where
  status : Nat
  output : String
  deriving DecidableEq, Inhabited

namespace Response

/-- Success with a text. -/
def success (output : String) : Response := ⟨0, output⟩

/-- A failure for a reason. -/
def failure (reason : String) : Response := ⟨1, s!"Error: {reason}\n"⟩

/-- The arguments ask for nothing. -/
def misuse : Response := ⟨2, ""⟩

end Response

/-- The name and the version of the program. -/
def versionLine : String := "fissure 0.1.0\n"

/-- What help shows. -/
def helpText : String :=
  "Usage: fissure [--no-memo] [--check] [--emit tokens|ast|source] FILE\n"

/-- Tokens one to a line, each behind its location. -/
def tokenLines (tokens : List Token) : String :=
  String.join (tokens.map fun token => s!"{token.location.text}\t{token.describe}\n")

/-- What is printed for the program of a file. -/
def emit (emission : Emission) (program : Program) : String :=
  match emission with
  | .outline => program.outline.text ++ "\n"
  | _ => program.text

/-- The answer for tokens that are read as a program. -/
def respondToTokens (options : Options) (tokens : List Token) : Response :=
  match Program.ofTokens tokens options.memoize with
  | .error rejection => .failure rejection.text
  | .ok program =>
    match program.entryErrors with
    | [] => .success (if options.checkOnly then "" else emit options.emission program)
    | errors => .failure ("\n".intercalate (errors.map EntryError.text))

/-- The answer for the text of a file. -/
def respondToSource (options : Options) (source : String) : Response :=
  match Token.ofSource options.file source with
  | .error error => .failure error.text
  | .ok tokens =>
    if options.emission = .tokens && !options.checkOnly then .success (tokenLines tokens)
    else respondToTokens options tokens

/-- The answer to a request, given what reading its file yields. Specification §10.9. -/
def respond (read : String → Except ReadError String) : Request → Response
  | .version => .success versionLine
  | .help => .success helpText
  | .misuse => .misuse
  | .run options =>
    match read options.file with
    | .error error => .failure s!"reading {options.file}: {error.message}"
    | .ok source => respondToSource options source

end Offside.CommandLine
