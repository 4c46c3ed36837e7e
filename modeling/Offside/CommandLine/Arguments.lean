/-!
# Arguments of the command line

Arguments are taken from left to right and the first wrong one decides, as does the first that asks
for the version or for help. Options begin with a hyphen; a lone hyphen is a file, and behind two
hyphens there are only files. Exactly one file is required, and no option may be given twice.

Specification §10.9.
-/

namespace Offside.CommandLine

/-- What is printed for a valid program. -/
inductive Emission where
  | tokens
  | outline
  | source
  deriving DecidableEq, Inhabited, Repr

/-- The emission of a name. -/
def Emission.ofName? : String → Option Emission
  | "tokens" => some tokens
  | "ast" => some outline
  | "source" => some source
  | _ => none

/-- A run that has been asked for. -/
structure Options where
  file : String
  memoize : Bool
  /-- Nothing is printed for a valid program. -/
  checkOnly : Bool
  emission : Emission
  deriving DecidableEq, Inhabited, Repr

/-- What the arguments ask for. -/
inductive Request where
  | run (options : Options)
  | version
  | help
  /-- The arguments ask for nothing that can be done. -/
  | misuse
  deriving DecidableEq, Inhabited, Repr

/-- The options that the arguments so far have given. -/
structure Given where
  file : Option String
  noMemo : Bool
  checkOnly : Bool
  emission : Option Emission

/-- No options. -/
def Given.none : Given := ⟨Option.none, false, false, Option.none⟩

namespace Given

/-- The given options as a request: without a file nothing can be done. -/
def request (given : Given) : Request :=
  match given.file with
  | Option.none => .misuse
  | some file => .run ⟨file, !given.noMemo, given.checkOnly, given.emission.getD .source⟩

/-- A file is given; an empty name is none. -/
def addFile? (given : Given) (file : String) : Option Given :=
  if given.file.isSome || file.isEmpty then Option.none else some { given with file := some file }

/-- An emission is given by its name. -/
def addEmission? (given : Given) (name : String) : Option Given :=
  match given.emission, Emission.ofName? name with
  | Option.none, some emission => some { given with emission := some emission }
  | _, _ => Option.none

/-- The only option with a value. -/
def emissionOption : String := "--emit"

/-- The argument gives the option together with its value. -/
def attachedEmission? (argument : String) : Option String :=
  let beginning := emissionOption.toList ++ ['=']
  if beginning.isPrefixOf argument.toList then
    some (String.ofList (argument.toList.drop beginning.length))
  else Option.none

/-- The argument can only be an option. -/
def looksLikeOption (argument : String) : Bool :=
  match argument.toList with
  | '-' :: _ :: _ => true
  | _ => false

/-- The request for what a word of one-letter options asks first. -/
def letters (argument : String) : Request :=
  match argument.toList with
  | '-' :: 'V' :: _ => .version
  | '-' :: 'h' :: _ => .help
  | _ => .misuse

end Given

/-- The request of the files that stand behind two hyphens. -/
def readFiles (given : Given) : List String → Request
  | [] => given.request
  | file :: rest =>
    match given.addFile? file with
    | some given => readFiles given rest
    | none => .misuse

/-- The request of arguments behind those that have given some options. -/
def readFrom (given : Given) : List String → Request
  | [] => given.request
  | "--" :: rest => readFiles given rest
  | "--version" :: _ => .version
  | "--help" :: _ => .help
  | "--no-memo" :: rest =>
    if given.noMemo then .misuse else readFrom { given with noMemo := true } rest
  | "--check" :: rest =>
    if given.checkOnly then .misuse else readFrom { given with checkOnly := true } rest
  | "--emit" :: name :: rest =>
    match given.addEmission? name with
    | some given => readFrom given rest
    | none => .misuse
  | argument :: rest =>
    match Given.attachedEmission? argument with
    | some name =>
      match given.addEmission? name with
      | some given => readFrom given rest
      | none => .misuse
    | none =>
      if Given.looksLikeOption argument then Given.letters argument
      else
        match given.addFile? argument with
        | some given => readFrom given rest
        | none => .misuse

/-- The request of the arguments of a command line. -/
def Request.ofArguments (arguments : List String) : Request := readFrom .none arguments

end Offside.CommandLine
