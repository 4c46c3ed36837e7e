import Offside.Proofs.Source.Columns
import Offside.Tree.Declaration

/-!
# Trees that are laid out in columns

A body stands in one column, deeper than that of the body around it (`Block.LaidOut`): its bindings,
assignments and loops begin in that column and its expressions in no earlier one, and a further
condition of any conditional in its statements, but not in a body nested in them, begins in it too.
What a struct declares stands in one column in the same way (`Struct.LaidOut`).
-/

namespace Offside

mutual

/-- The expression is laid out as part of a statement of a body that stands in the column. -/
def Expression.LaidOut (column : Nat) : Expression → Prop
  | .tuple _ elements => expressionsLaidOut column elements
  | .list _ elements => expressionsLaidOut column elements
  | .binary _ _ left right => left.LaidOut column ∧ right.LaidOut column
  | .unary _ _ operand => operand.LaidOut column
  | .property _ root _ => root.LaidOut column
  | .message _ _ arguments => argumentsLaidOut column arguments
  | .send _ receiver message => receiver.LaidOut column ∧ message.LaidOut column
  | .block body => body.LaidOut column
  | .conditional _ condition body alternatives otherwise =>
    condition.LaidOut column ∧ body.LaidOut column ∧ elseIfsLaidOut column alternatives ∧
      otherwiseLaidOut column otherwise
  | .name .. | .string .. | .integer .. | .float .. | .boolean .. | .character .. | .create .. =>
    True

/-- The expressions are laid out as parts of a statement of a body that stands in the column. -/
def expressionsLaidOut (column : Nat) : List Expression → Prop
  | [] => True
  | expression :: rest => expression.LaidOut column ∧ expressionsLaidOut column rest

/-- The body stands in one column, which is deeper than the given column of the body around it. -/
def Block.LaidOut (outer : Nat) : Block → Prop
  | .mk _ statements => ∃ column, outer < column ∧ statementsLaidOut column statements

/-- The statements are laid out in a body that stands in the column. -/
def statementsLaidOut (column : Nat) : List Statement → Prop
  | [] => True
  | statement :: rest => statement.LaidOut column ∧ statementsLaidOut column rest

/-- The statement is laid out in a body that stands in the column: it begins in that column, or no
earlier if it is an expression. -/
def Statement.LaidOut (column : Nat) : Statement → Prop
  | .bind location _ value => location.column? = some column ∧ value.LaidOut column
  | .assign location _ value => location.column? = some column ∧ value.LaidOut column
  | .forEach location _ iterable body =>
    location.column? = some column ∧ iterable.LaidOut column ∧ body.LaidOut column
  | .loop location condition body =>
    location.column? = some column ∧ condition.LaidOut column ∧ body.LaidOut column
  | .expression location value => location.IsFrom column ∧ value.LaidOut column

/-- The arguments are laid out as parts of a statement of a body that stands in the column. -/
def argumentsLaidOut (column : Nat) : List Argument → Prop
  | [] => True
  | argument :: rest => argument.LaidOut column ∧ argumentsLaidOut column rest

/-- The value of the argument is laid out as part of such a statement. -/
def Argument.LaidOut (column : Nat) : Argument → Prop
  | .mk _ _ value => value.LaidOut column

/-- The further conditions are laid out as those of a conditional in such a statement. -/
def elseIfsLaidOut (column : Nat) : List ElseIf → Prop
  | [] => True
  | alternative :: rest => alternative.LaidOut column ∧ elseIfsLaidOut column rest

/-- The further condition begins in the column of the body that the conditional is in. -/
def ElseIf.LaidOut (column : Nat) : ElseIf → Prop
  | .mk location condition body =>
    location.column? = some column ∧ condition.LaidOut column ∧ body.LaidOut column

/-- The body that may be missing is deeper than the column. -/
def otherwiseLaidOut (column : Nat) : Option Block → Prop
  | none => True
  | some body => body.LaidOut column

end

section Lists

variable {column : Nat}

/-- Several expressions are laid out in a column if each of them is. -/
theorem expressionsLaidOut_iff {expressions : List Expression} :
    expressionsLaidOut column expressions ↔
      ∀ expression ∈ expressions, expression.LaidOut column := by
  induction expressions with
  | nil => simp [expressionsLaidOut]
  | cons expression rest ih => simp [expressionsLaidOut, ih]

/-- Several statements are laid out in a column if each of them is. -/
theorem statementsLaidOut_iff {statements : List Statement} :
    statementsLaidOut column statements ↔ ∀ statement ∈ statements, statement.LaidOut column := by
  induction statements with
  | nil => simp [statementsLaidOut]
  | cons statement rest ih => simp [statementsLaidOut, ih]

/-- Several further conditions are laid out in a column if each of them is. -/
theorem elseIfsLaidOut_iff {alternatives : List ElseIf} :
    elseIfsLaidOut column alternatives ↔
      ∀ alternative ∈ alternatives, alternative.LaidOut column := by
  induction alternatives with
  | nil => simp [elseIfsLaidOut]
  | cons alternative rest ih => simp [elseIfsLaidOut, ih]

/-- Several arguments are laid out in a column if each of them is. -/
theorem argumentsLaidOut_iff {arguments : List Argument} :
    argumentsLaidOut column arguments ↔ ∀ argument ∈ arguments, argument.LaidOut column := by
  induction arguments with
  | nil => simp [argumentsLaidOut]
  | cons argument rest ih => simp [argumentsLaidOut, ih]

end Lists

/-- What the struct declares begins in one column, deeper than the given one, and the bodies of its
handlers are deeper than that. -/
def Struct.LaidOut (outer : Nat) (struct : Struct) : Prop :=
  ∃ column, outer < column ∧
    (∀ member ∈ struct.members, member.location.column? = some column) ∧
    ∀ handler ∈ struct.handlers,
      handler.location.column? = some column ∧ handler.body.LaidOut column

/-- Every struct is laid out on its own, in no body of another. -/
def Program.LaidOut (program : Program) : Prop := ∀ struct ∈ program.structs, struct.LaidOut 0

end Offside
