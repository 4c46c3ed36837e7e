import Offside.Canonical.Tree
import Offside.Proofs.Tree.Erasure

/-!
# Locations do not show

The canonical source of a tree is that of the tree without its locations: two programs that are the
same up to locations have the same text (`Program.text_eq_of_erase_eq`).
-/

namespace Offside

open Canonical

mutual

private theorem TypeExpr.pieces_erase : (type : TypeExpr) → type.erase.pieces = type.pieces
  | .named _ _ [] => rfl
  | .named _ _ (first :: rest) => by
    simp only [TypeExpr.erase, eraseTypes, TypeExpr.pieces, first.pieces_erase,
      typePieces_erase rest]
  | .list _ element => by simp only [TypeExpr.erase, TypeExpr.pieces, element.pieces_erase]
  | .tuple _ elements => by
    simp only [TypeExpr.erase, TypeExpr.pieces, typePieces_erase elements, loneComma,
      length_eraseTypes elements]
  | .variadic _ inner => by simp only [TypeExpr.erase, TypeExpr.pieces, inner.pieces_erase]

private theorem typePieces_erase : (types : List TypeExpr) →
    typePieces (eraseTypes types) = typePieces types
  | [] => rfl
  | type :: rest => by simp only [eraseTypes, typePieces, type.pieces_erase, typePieces_erase rest]

private theorem length_eraseTypes : (types : List TypeExpr) →
    (eraseTypes types).length = types.length
  | [] => rfl
  | _ :: rest => congrArg (· + 1) (length_eraseTypes rest)

end

mutual

private theorem Pattern.pieces_erase : (pattern : Pattern) → pattern.erase.pieces = pattern.pieces
  | .name .. | .ignored _ | .variadic _ none => rfl
  | .list _ patterns => by simp only [Pattern.erase, Pattern.pieces, patternPieces_erase patterns]
  | .tuple _ patterns => by
    simp only [Pattern.erase, Pattern.pieces, patternPieces_erase patterns, loneComma,
      length_erasePatterns patterns]
  | .variadic _ (some inner) => by
    simp only [Pattern.erase, eraseOptionalPattern, Pattern.pieces, optionalPatternPieces,
      inner.pieces_erase]

private theorem patternPieces_erase : (patterns : List Pattern) →
    patternPieces (erasePatterns patterns) = patternPieces patterns
  | [] => rfl
  | pattern :: rest => by
    simp only [erasePatterns, patternPieces, pattern.pieces_erase, patternPieces_erase rest]

private theorem length_erasePatterns : (patterns : List Pattern) →
    (erasePatterns patterns).length = patterns.length
  | [] => rfl
  | _ :: rest => congrArg (· + 1) (length_erasePatterns rest)

end

private theorem Path.pieces_erase : (path : Path) → path.erase.pieces = path.pieces
  | .name .. => rfl
  | .property _ inner _ => by simp only [Path.erase, Path.pieces, inner.pieces_erase]

/-! ### Expressions and statements -/

private theorem Expression.endsWithBlock_erase : (expression : Expression) →
    expression.erase.endsWithBlock = expression.endsWithBlock
  | .binary _ _ _ right => right.endsWithBlock_erase
  | .unary _ _ operand => operand.endsWithBlock_erase
  | .send _ _ sent => sent.endsWithBlock_erase
  | .name .. | .string .. | .integer .. | .float .. | .boolean .. | .character .. | .tuple ..
  | .list .. | .property .. | .create .. | .message .. | .block _ | .conditional .. => rfl

private theorem Expression.startsWithMinus_erase : (expression : Expression) →
    expression.erase.startsWithMinus = expression.startsWithMinus
  | .binary _ _ left _ => left.startsWithMinus_erase
  | .send _ receiver _ => receiver.startsWithMinus_erase
  | .unary .. | .name .. | .string .. | .integer .. | .float .. | .boolean .. | .character ..
  | .tuple .. | .list .. | .property .. | .create .. | .message .. | .block _
  | .conditional .. => rfl

mutual

/-- Locations leave no trace in the pieces of an expression. -/
theorem Expression.pieces_erase (rank : Nat) : (expression : Expression) →
    expression.erase.pieces rank = expression.pieces rank
  | .name .. | .string .. | .integer .. | .float .. | .boolean .. | .character .. => rfl
  | .tuple _ elements => by
    simp only [Expression.erase, Expression.pieces, expressionPieces_erase elements, loneComma,
      length_eraseExpressions elements]
  | .list _ elements => by
    simp only [Expression.erase, Expression.pieces, expressionPieces_erase elements]
  | .block body => by simp only [Expression.erase, Expression.pieces, body.pieces_erase]
  | .create _ type => by simp only [Expression.erase, Expression.pieces, type.pieces_erase]
  | .message _ _ [] => rfl
  | .message _ _ (argument :: rest) => by
    simp only [Expression.erase, eraseArguments, Expression.pieces, argumentPieces,
      argument.pieces_erase, argumentPieces_erase rest, List.isEmpty_cons]
  | .property _ root _ => by
    simp only [Expression.erase, Expression.pieces, root.endsWithBlock_erase, root.pieces_erase]
  | .unary _ _ operand => by simp only [Expression.erase, Expression.pieces, operand.pieces_erase]
  | .binary _ _ left right => by
    simp only [Expression.erase, Expression.pieces, left.endsWithBlock_erase, left.pieces_erase,
      right.pieces_erase]
  | .send _ receiver sent => by
    simp only [Expression.erase, Expression.pieces, receiver.endsWithBlock_erase,
      receiver.pieces_erase, sent.startsWithMinus_erase, sent.pieces_erase]
  | .conditional _ condition body alternatives otherwise => by
    simp only [Expression.erase, Expression.pieces, condition.endsWithBlock_erase,
      condition.pieces_erase, body.pieces_erase, elseIfPieces_erase alternatives,
      otherwisePieces_erase otherwise]

private theorem expressionPieces_erase : (expressions : List Expression) →
    expressionPieces (eraseExpressions expressions) = expressionPieces expressions
  | [] => rfl
  | expression :: rest => by
    simp only [eraseExpressions, expressionPieces, expression.pieces_erase,
      expressionPieces_erase rest]

private theorem length_eraseExpressions : (expressions : List Expression) →
    (eraseExpressions expressions).length = expressions.length
  | [] => rfl
  | _ :: rest => congrArg (· + 1) (length_eraseExpressions rest)

private theorem Block.pieces_erase : (body : Block) → body.erase.pieces = body.pieces
  | .mk _ statements => by simp only [Block.erase, Block.pieces, statementPieces_erase statements]

private theorem statementPieces_erase : (statements : List Statement) →
    statementPieces (eraseStatements statements) = statementPieces statements
  | [] => rfl
  | statement :: rest => by
    simp only [eraseStatements, statementPieces, statement.pieces_erase, statementPieces_erase rest]

/-- Locations leave no trace in the pieces of a statement. -/
theorem Statement.pieces_erase : (statement : Statement) →
    statement.erase.pieces = statement.pieces
  | .bind _ pattern value => by
    simp only [Statement.erase, Statement.pieces, pattern.pieces_erase, value.pieces_erase]
  | .assign _ path value => by
    simp only [Statement.erase, Statement.pieces, path.pieces_erase, value.pieces_erase]
  | .forEach _ pattern iterable body => by
    simp only [Statement.erase, Statement.pieces, pattern.pieces_erase,
      iterable.endsWithBlock_erase, iterable.pieces_erase, body.pieces_erase]
  | .loop _ condition body => by
    simp only [Statement.erase, Statement.pieces, condition.endsWithBlock_erase,
      condition.pieces_erase, body.pieces_erase]
  | .expression _ expression => by
    simp only [Statement.erase, Statement.pieces, expression.pieces_erase]

private theorem argumentPieces_erase : (arguments : List Argument) →
    argumentPieces (eraseArguments arguments) = argumentPieces arguments
  | [] => rfl
  | argument :: rest => by
    simp only [eraseArguments, argumentPieces, argument.pieces_erase, argumentPieces_erase rest]

private theorem Argument.pieces_erase :
    (argument : Argument) → argument.erase.pieces = argument.pieces
  | .mk _ _ value => by simp only [Argument.erase, Argument.pieces, value.pieces_erase]

private theorem elseIfPieces_erase : (alternatives : List ElseIf) →
    elseIfPieces (eraseElseIfs alternatives) = elseIfPieces alternatives
  | [] => rfl
  | alternative :: rest => by
    simp only [eraseElseIfs, elseIfPieces, alternative.pieces_erase, elseIfPieces_erase rest]

private theorem ElseIf.pieces_erase : (alternative : ElseIf) →
    alternative.erase.pieces = alternative.pieces
  | .mk _ condition body => by
    simp only [ElseIf.erase, ElseIf.pieces, condition.endsWithBlock_erase, condition.pieces_erase,
      body.pieces_erase]

private theorem otherwisePieces_erase : (otherwise : Option Block) →
    otherwisePieces (eraseOtherwise otherwise) = otherwisePieces otherwise
  | none => rfl
  | some body => by simp only [eraseOtherwise, otherwisePieces, body.pieces_erase]

end

/-! ### Declarations -/

private theorem Parameter.pieces_erase (parameter : Parameter) :
    parameter.erase.pieces = parameter.pieces := by
  obtain ⟨location, value, _ | type⟩ := parameter
  · rfl
  · simp only [erase, pieces, annotationPieces, Option.map_some, type.pieces_erase]

private theorem Member.pieces_erase (member : Member) : member.erase.pieces = member.pieces := by
  simp only [erase, pieces, annotationPieces, member.type.pieces_erase]

private theorem Handler.pieces_erase (handler : Handler) : handler.erase.pieces =
    handler.pieces := by
  simp only [erase, pieces, handler.body.pieces_erase, List.map_map, Function.comp_def,
    Parameter.pieces_erase]

private theorem Struct.pieces_erase (struct : Struct) : struct.erase.pieces = struct.pieces := by
  simp only [erase, pieces, List.flatMap_map, Member.pieces_erase, Handler.pieces_erase]

private theorem Program.pieces_erase (program : Program) : program.erase.pieces =
    program.pieces := by
  simp only [erase, pieces, List.map_map, Function.comp_def, Struct.pieces_erase]

/-- Programs that are the same up to locations have the same canonical source. -/
theorem Program.text_eq_of_erase_eq {program other : Program} (h : program.erase = other.erase) :
    program.text = other.text := by
  unfold Program.text
  rw [← program.pieces_erase, h, other.pieces_erase]

end Offside
