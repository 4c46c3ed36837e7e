import Offside.Packrat.Table

/-!
# What a parse reads and what it changes

A parse reads a fixed list of tokens, its `Input`, and changes a `State`: the position of the next
token, the columns of the open blocks and the table of remembered results. Behind the last token
the input reads as an endless row of ends of input that stand in no column.

Specification §3 (the stack of columns) and §10.5.
-/

namespace Offside.Packrat

/-- The tokens of a parse, and whether results are remembered. -/
structure Input where
  tokens : Array Token
  memoize : Bool

namespace Input

/-- The file that the input is from. -/
def file (input : Input) : String :=
  match input.tokens[0]? with
  | some token => token.location.file
  | none => "<input>"

/-- What is read behind the last token. -/
def beyond (input : Input) : Token := ⟨⟨.endOfInput, .none⟩, .generated input.file⟩

/-- The token at a position. -/
def tokenAt (input : Input) (position : Nat) : Token :=
  input.tokens[position]?.getD input.beyond

/-- The number of line ends in a row from a position on. -/
def lineEnds (input : Input) (position : Nat) : Nat :=
  ((input.tokens.toList.drop position).takeWhile (·.kind = .endOfLine)).length

/-- A bound on the successes in a row that consume a token each, and one more attempt. -/
def attempts (input : Input) (position : Nat) : Nat := input.tokens.size - position + 1

end Input

/-- What a parse changes. Specification §3: the stack with its base 0 left out. -/
structure State where
  position : Nat
  /-- The columns of the open blocks, the innermost first. -/
  blocks : List Nat
  table : Table
  deriving Inhabited

namespace State

/-- The state before the first token. -/
def start : State := ⟨0, [], .empty⟩

/-- The column of the innermost open block; zero outside all blocks. -/
def indent (state : State) : Nat := state.blocks.headD 0

/-- The number of open blocks, the whole input counted as one. -/
def depth (state : State) : Nat := state.blocks.length + 1

/-- The state at another position. -/
def moveTo (state : State) (position : Nat) : State := { state with position }

/-- The state inside a block of a column. -/
def openBlock (state : State) (column : Nat) : State :=
  { state with blocks := column :: state.blocks }

/-- The state behind the innermost open block. -/
def closeBlock (state : State) : State := { state with blocks := state.blocks.tail }

/-- The next token. -/
def current (state : State) (input : Input) : Token := input.tokenAt state.position

/-- The token before the position, if it is one of the input. -/
def previous? (state : State) (input : Input) : Option Token :=
  match state.position with
  | 0 => none
  | position + 1 => input.tokens[position]?

/-- The state behind the next token; the last token is never passed. -/
def advance (state : State) (input : Input) : State :=
  if state.position < input.tokens.size then state.moveTo (state.position + 1) else state

/-- The token before the position ends a line. -/
def isBehindLineEnd (state : State) (input : Input) : Bool :=
  match state.previous? input with
  | some token => token.kind = .endOfLine
  | none => false

/-- Moving goes to the position. -/
@[simp] theorem position_moveTo (state : State) (position : Nat) :
    (state.moveTo position).position = position := rfl

/-- Moving leaves the open blocks as they are. -/
@[simp] theorem blocks_moveTo (state : State) (position : Nat) :
    (state.moveTo position).blocks = state.blocks := rfl

/-- Moving leaves the table as it is. -/
@[simp] theorem table_moveTo (state : State) (position : Nat) :
    (state.moveTo position).table = state.table := rfl

/-- A block that is opened and closed leaves no trace. -/
@[simp] theorem closeBlock_openBlock (state : State) (column : Nat) :
    (state.openBlock column).closeBlock = state := rfl

/-- An opened block is the innermost one. -/
@[simp] theorem indent_openBlock (state : State) (column : Nat) :
    (state.openBlock column).indent = column := rfl

/-- An opened block is one more. -/
@[simp] theorem depth_openBlock (state : State) (column : Nat) :
    (state.openBlock column).depth = state.depth + 1 := rfl

end State

end Offside.Packrat
