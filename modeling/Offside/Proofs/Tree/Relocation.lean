import Offside.Tree.Declaration

/-!
# Trees at other locations

Relocating a tree maps each of its locations and keeps every name, value, operator and nesting. What
lists relocate to is the list of what their items relocate to, and a node is located where its
relocation maps its location.
-/

namespace Offside

variable (g : Location → Location)

mutual

/-- A type at other locations. -/
def TypeExpr.relocate : TypeExpr → TypeExpr
  | .named location value arguments => .named (g location) value (relocateTypes arguments)
  | .list location element => .list (g location) element.relocate
  | .tuple location elements => .tuple (g location) (relocateTypes elements)
  | .variadic location inner => .variadic (g location) inner.relocate

/-- Types at other locations. -/
def relocateTypes : List TypeExpr → List TypeExpr
  | [] => []
  | type :: rest => type.relocate :: relocateTypes rest

end

mutual

/-- A pattern at other locations. -/
def Pattern.relocate : Pattern → Pattern
  | .name location value => .name (g location) value
  | .ignored location => .ignored (g location)
  | .list location patterns => .list (g location) (relocatePatterns patterns)
  | .tuple location patterns => .tuple (g location) (relocatePatterns patterns)
  | .variadic location inner => .variadic (g location) (relocateOptionalPattern inner)

/-- Patterns at other locations. -/
def relocatePatterns : List Pattern → List Pattern
  | [] => []
  | pattern :: rest => pattern.relocate :: relocatePatterns rest

/-- A pattern that may be missing, at other locations. -/
def relocateOptionalPattern : Option Pattern → Option Pattern
  | none => none
  | some pattern => some pattern.relocate

end

/-- A path at other locations. -/
def Path.relocate : Path → Path
  | .name location value => .name (g location) value
  | .property location inner value => .property (g location) inner.relocate value

mutual

/-- An expression at other locations. -/
def Expression.relocate : Expression → Expression
  | .name location value => .name (g location) value
  | .string location value => .string (g location) value
  | .integer location value => .integer (g location) value
  | .float location value => .float (g location) value
  | .boolean location value => .boolean (g location) value
  | .character location value => .character (g location) value
  | .tuple location elements => .tuple (g location) (relocateExpressions elements)
  | .list location elements => .list (g location) (relocateExpressions elements)
  | .binary location operator left right =>
    .binary (g location) operator left.relocate right.relocate
  | .unary location operator operand => .unary (g location) operator operand.relocate
  | .property location root value => .property (g location) root.relocate value
  | .create location type => .create (g location) (type.relocate g)
  | .message location header arguments =>
    .message (g location) header (relocateArguments arguments)
  | .send location receiver message => .send (g location) receiver.relocate message.relocate
  | .block body => .block body.relocate
  | .conditional location condition body alternatives otherwise =>
    .conditional (g location) condition.relocate body.relocate (relocateElseIfs alternatives)
      (relocateOtherwise otherwise)

/-- Expressions at other locations. -/
def relocateExpressions : List Expression → List Expression
  | [] => []
  | expression :: rest => expression.relocate :: relocateExpressions rest

/-- A block at other locations. -/
def Block.relocate : Block → Block
  | .mk location statements => .mk (g location) (relocateStatements statements)

/-- Statements at other locations. -/
def relocateStatements : List Statement → List Statement
  | [] => []
  | statement :: rest => statement.relocate :: relocateStatements rest

/-- A statement at other locations. -/
def Statement.relocate : Statement → Statement
  | .bind location pattern value => .bind (g location) (pattern.relocate g) value.relocate
  | .assign location path value => .assign (g location) (path.relocate g) value.relocate
  | .forEach location pattern iterable body =>
    .forEach (g location) (pattern.relocate g) iterable.relocate body.relocate
  | .loop location condition body => .loop (g location) condition.relocate body.relocate
  | .expression location expression => .expression (g location) expression.relocate

/-- Arguments at other locations. -/
def relocateArguments : List Argument → List Argument
  | [] => []
  | argument :: rest => argument.relocate :: relocateArguments rest

/-- An argument at other locations. -/
def Argument.relocate : Argument → Argument
  | .mk location key value => .mk (g location) key value.relocate

/-- Further conditions at other locations. -/
def relocateElseIfs : List ElseIf → List ElseIf
  | [] => []
  | alternative :: rest => alternative.relocate :: relocateElseIfs rest

/-- A further condition at other locations. -/
def ElseIf.relocate : ElseIf → ElseIf
  | .mk location condition body => .mk (g location) condition.relocate body.relocate

/-- The body for want of a true condition at other locations. -/
def relocateOtherwise : Option Block → Option Block
  | none => none
  | some body => some body.relocate

end

/-- A parameter at other locations. -/
def Parameter.relocate (parameter : Parameter) : Parameter :=
  ⟨g parameter.location, parameter.name, parameter.type.map (TypeExpr.relocate g)⟩

/-- A member at other locations. -/
def Member.relocate (member : Member) : Member :=
  ⟨g member.location, member.name, member.type.relocate g⟩

/-- A handler at other locations. -/
def Handler.relocate (handler : Handler) : Handler :=
  ⟨g handler.location, handler.name, handler.parameters.map (Parameter.relocate g),
    handler.body.relocate g⟩

/-- A declared thing at other locations. -/
def StructItem.relocate : StructItem → StructItem
  | .member declared => .member (declared.relocate g)
  | .handler declared => .handler (declared.relocate g)

/-- A struct at other locations. -/
def Struct.relocate (struct : Struct) : Struct :=
  ⟨g struct.location, struct.name, struct.members.map (Member.relocate g),
    struct.handlers.map (Handler.relocate g)⟩

/-- A program at other locations. -/
def Program.relocate (program : Program) : Program :=
  ⟨g program.location, program.structs.map (Struct.relocate g)⟩

/-! ### Lists of nodes -/

/-- Several types are relocated one by one. -/
theorem relocateTypes_eq (types : List TypeExpr) :
    relocateTypes g types = types.map (TypeExpr.relocate g) := by
  induction types with
  | nil => rfl
  | cons type rest ih => exact congrArg _ ih

/-- Several patterns are relocated one by one. -/
theorem relocatePatterns_eq (patterns : List Pattern) :
    relocatePatterns g patterns = patterns.map (Pattern.relocate g) := by
  induction patterns with
  | nil => rfl
  | cons pattern rest ih => exact congrArg _ ih

/-- Several expressions are relocated one by one. -/
theorem relocateExpressions_eq (expressions : List Expression) :
    relocateExpressions g expressions = expressions.map (Expression.relocate g) := by
  induction expressions with
  | nil => rfl
  | cons expression rest ih => exact congrArg _ ih

/-- Several statements are relocated one by one. -/
theorem relocateStatements_eq (statements : List Statement) :
    relocateStatements g statements = statements.map (Statement.relocate g) := by
  induction statements with
  | nil => rfl
  | cons statement rest ih => exact congrArg _ ih

/-- Several arguments are relocated one by one. -/
theorem relocateArguments_eq (arguments : List Argument) :
    relocateArguments g arguments = arguments.map (Argument.relocate g) := by
  induction arguments with
  | nil => rfl
  | cons argument rest ih => exact congrArg _ ih

/-- Several further conditions are relocated one by one. -/
theorem relocateElseIfs_eq (alternatives : List ElseIf) :
    relocateElseIfs g alternatives = alternatives.map (ElseIf.relocate g) := by
  induction alternatives with
  | nil => rfl
  | cons alternative rest ih => exact congrArg _ ih

/-- A pattern that may be missing is relocated where there is one. -/
theorem relocateOptionalPattern_eq (pattern : Option Pattern) :
    relocateOptionalPattern g pattern = pattern.map (Pattern.relocate g) := by
  cases pattern <;> rfl

/-- A body that may be missing is relocated where there is one. -/
theorem relocateOtherwise_eq (otherwise : Option Block) :
    relocateOtherwise g otherwise = otherwise.map (Block.relocate g) := by
  cases otherwise <;> rfl

/-! ### Locations of nodes -/

/-- The location of a relocated pattern is the relocated one. -/
theorem Pattern.location_relocate (pattern : Pattern) :
    (pattern.relocate g).location = g pattern.location := by
  cases pattern <;> rfl

/-- Relocation makes no pattern variadic. -/
theorem Pattern.isVariadic_relocate (pattern : Pattern) :
    (pattern.relocate g).isVariadic = pattern.isVariadic := by
  cases pattern <;> rfl

/-- The location of a relocated path is the relocated one. -/
theorem Path.location_relocate (path : Path) : (path.relocate g).location = g path.location := by
  cases path <;> rfl

private theorem Block.location_relocate (block : Block) :
    (block.relocate g).location = g block.location := by
  cases block
  rfl

/-- The statements of a relocated body are the relocated ones. -/
theorem Block.statements_relocate (block : Block) :
    (block.relocate g).statements = relocateStatements g block.statements := by
  cases block
  rfl

/-- The location of a relocated expression is the relocated one. -/
theorem Expression.location_relocate (expression : Expression) :
    (expression.relocate g).location = g expression.location := by
  cases expression with
  | block body => exact body.location_relocate g
  | _ => rfl

/-- The location of a relocated statement is the relocated one. -/
theorem Statement.location_relocate (statement : Statement) :
    (statement.relocate g).location = g statement.location := by
  cases statement <;> rfl

/-- The location of a relocated declared thing is the relocated one. -/
theorem StructItem.location_relocate (item : StructItem) :
    (item.relocate g).location = g item.location := by
  cases item <;> rfl

end Offside
