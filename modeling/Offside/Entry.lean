import Offside.Tree.Declaration

/-!
# Programs that can be run

A program can be run if no name is declared twice in one scope and if the struct `Program` has a
handler `Main` with the one parameter `system`. `Program.entryErrors` lists everything that is in
the way: structs declared twice, then for each struct its members and its handlers declared twice,
then what is wrong with the entry.

Specification §6 (the convention of the entry) and §10.8.
-/

namespace Offside

/-- Something that keeps a program from being run. -/
inductive EntryError where
  | missingProgram (location : Location)
  | missingMain (location : Location)
  /-- The parameters of the entry are the given ones. -/
  | invalidMainParameters (location : Location) (found : List String)
  | duplicateStruct (location : Location) (name : String) (previous : Location)
  | duplicateMember (location : Location) (owner name : String) (previous : Location)
  | duplicateHandler (location : Location) (owner name : String) (previous : Location)
  deriving DecidableEq, Inhabited

namespace EntryError

/-- Where the error is reported. -/
def location : EntryError → Location
  | missingProgram location | missingMain location | invalidMainParameters location _
  | duplicateStruct location .. | duplicateMember location .. | duplicateHandler location .. =>
    location

/-- The parameters of an entry in words. -/
def parameterList (names : List String) : String :=
  if names.isEmpty then "none" else ", ".intercalate (names.map fun name => s!"'{name}'")

/-- The error in words, without its location. -/
def message : EntryError → String
  | missingProgram _ => "program must declare a struct named 'Program'"
  | missingMain _ => "struct 'Program' must declare a handler 'Main'"
  | invalidMainParameters _ found =>
    "handler 'Main' must take exactly one parameter 'system', found " ++ parameterList found
  | duplicateStruct _ name previous =>
    s!"struct '{name}' is already declared at {previous.text}"
  | duplicateMember _ owner name previous =>
    s!"member '{name}' of struct '{owner}' is already declared at {previous.text}"
  | duplicateHandler _ owner name previous =>
    s!"handler '{name}' of struct '{owner}' is already declared at {previous.text}"

/-- The error as messages show it. -/
def text (error : EntryError) : String := s!"{error.location.text}: {error.message}"

end EntryError

/-- A name where it is declared. -/
abbrev Declared : Type := String × Location

/-- The names among those declared later that are declared twice, each with its location and the
first location of the name; `seen` holds the first declaration of each earlier name. -/
def repeatedFrom (seen : List Declared) : List Declared → List (Declared × Location)
  | [] => []
  | (name, location) :: rest =>
    match seen.lookup name with
    | some previous => ((name, location), previous) :: repeatedFrom seen rest
    | none => repeatedFrom ((name, location) :: seen) rest

/-- The names declared again, each with its location and the first location of the name. -/
def repeatedNames (declared : List Declared) : List (Declared × Location) :=
  repeatedFrom [] declared

namespace Program

/-- Structs that are declared again. -/
def structErrors (program : Program) : List EntryError :=
  (repeatedNames (program.structs.map fun struct => (struct.name, struct.location))).map
    fun ((name, location), previous) => .duplicateStruct location name previous

/-- Members and then handlers that a struct declares again. -/
def itemErrors (struct : Struct) : List EntryError :=
  (repeatedNames (struct.members.map fun member => (member.name, member.location))).map
      (fun ((name, location), previous) => .duplicateMember location struct.name name previous) ++
    (repeatedNames (struct.handlers.map fun handler => (handler.name, handler.location))).map
      fun ((name, location), previous) => .duplicateHandler location struct.name name previous

/-- What is wrong with the entry of the program, at most one thing. -/
def entryError? (program : Program) : Option EntryError :=
  match program.struct? "Program" with
  | none => some (.missingProgram program.location)
  | some struct =>
    match struct.handler? "Main" with
    | none => some (.missingMain struct.location)
    | some main =>
      if main.parameters.map (·.name) = ["system"] then none
      else some (.invalidMainParameters main.location (main.parameters.map (·.name)))

/-- Everything that keeps the program from being run. Specification §10.8. -/
def entryErrors (program : Program) : List EntryError :=
  program.structErrors ++ program.structs.flatMap itemErrors ++ program.entryError?.toList

end Program

end Offside
