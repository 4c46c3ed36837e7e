import Offside.Proofs.Source.Lexeme
import Offside.Proofs.Tree.Demands

/-!
# Well-formed trees

What every tree has that is read from a source text: its names are lexemes, its numbers are those
that literals write, tuples and bodies are not empty, and brackets of patterns take the rest at most
once.
-/

namespace Offside

open LexemeClass (IsName)

/-- The text is a name. -/
def Named (name : String) : Prop := IsName name.toList

mutual

/-- The type is one that a source text may hold. -/
def TypeExpr.WellFormed : TypeExpr → Prop
  | .named _ value arguments => Named value ∧ typesWellFormed arguments
  | .list _ element => element.WellFormed
  | .tuple _ elements => elements ≠ [] ∧ typesWellFormed elements
  | .variadic _ inner => inner.WellFormed

/-- The types are ones that a source text may hold. -/
def typesWellFormed : List TypeExpr → Prop
  | [] => True
  | type :: rest => type.WellFormed ∧ typesWellFormed rest

end

/-- The patterns of a pair of brackets, which take the rest at most once. -/
def AtMostOneVariadic (patterns : List Pattern) : Prop :=
  (patterns.filter Pattern.isVariadic).length ≤ 1

mutual

/-- The pattern is one that a source text may hold. -/
def Pattern.WellFormed : Pattern → Prop
  | .name _ value => Named value
  | .ignored _ => True
  | .list _ patterns => AtMostOneVariadic patterns ∧ patternsWellFormed patterns
  | .tuple _ patterns =>
    patterns ≠ [] ∧ AtMostOneVariadic patterns ∧ patternsWellFormed patterns
  | .variadic _ inner => optionalPatternWellFormed inner

/-- The patterns are ones that a source text may hold. -/
def patternsWellFormed : List Pattern → Prop
  | [] => True
  | pattern :: rest => pattern.WellFormed ∧ patternsWellFormed rest

/-- The pattern, if there is one, is one that a source text may hold. -/
def optionalPatternWellFormed : Option Pattern → Prop
  | none => True
  | some pattern => pattern.WellFormed

end

/-- The path is one that a source text may hold. -/
def Path.WellFormed : Path → Prop
  | .name _ value => Named value
  | .property _ inner value => inner.WellFormed ∧ Named value

/-- What every expression and every statement has that is read from a source text. -/
def wellFormed : Demands where
  expression
    | .name _ value => Named value
    | .integer _ value => 0 ≤ value
    | .float _ value => value.isFinite = true ∧ value.isNegative = false
    | .tuple _ elements => elements ≠ []
    | .property _ _ value => Named value
    | .create _ type => type.WellFormed
    | .message _ header _ => Named header
    | _ => True
  block statements := statements ≠ []
  statement
    | .bind _ pattern _ => pattern.WellFormed
    | .assign _ path _ => path.WellFormed
    | .forEach _ pattern _ _ => pattern.WellFormed
    | _ => True
  argument := Named

/-- The parameter is one that a source text may hold. -/
def Parameter.WellFormed (parameter : Parameter) : Prop :=
  Named parameter.name ∧ ∀ type ∈ parameter.type, type.WellFormed

/-- The member is one that a source text may hold. -/
def Member.WellFormed (member : Member) : Prop := Named member.name ∧ member.type.WellFormed

/-- The handler is one that a source text may hold, as far as its head goes. -/
def Handler.WellFormed (handler : Handler) : Prop :=
  Named handler.name ∧ (∀ parameter ∈ handler.parameters, parameter.WellFormed) ∧
    handler.body.Meets Offside.wellFormed

/-- The declared thing is one that a source text may hold. -/
def StructItem.WellFormed : StructItem → Prop
  | member declared => declared.WellFormed
  | handler declared => declared.WellFormed

/-- The struct is one that a source text may hold: it declares something. -/
def Struct.WellFormed (struct : Struct) : Prop :=
  Named struct.name ∧ (struct.members ≠ [] ∨ struct.handlers ≠ []) ∧
    (∀ member ∈ struct.members, member.WellFormed) ∧
    ∀ handler ∈ struct.handlers, handler.WellFormed

/-- The program is one that a source text may hold. -/
def Program.WellFormed (program : Program) : Prop :=
  ∀ struct ∈ program.structs, struct.WellFormed

/-- Several types are well-formed if each of them is. -/
theorem typesWellFormed_iff {types : List TypeExpr} :
    typesWellFormed types ↔ ∀ type ∈ types, type.WellFormed := by
  induction types with
  | nil => simp [typesWellFormed]
  | cons type rest ih => simp [typesWellFormed, ih]

/-- Several patterns are well-formed if each of them is. -/
theorem patternsWellFormed_iff {patterns : List Pattern} :
    patternsWellFormed patterns ↔ ∀ pattern ∈ patterns, pattern.WellFormed := by
  induction patterns with
  | nil => simp [patternsWellFormed]
  | cons pattern rest ih => simp [patternsWellFormed, ih]

end Offside
