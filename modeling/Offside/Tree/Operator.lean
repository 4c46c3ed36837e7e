import Offside.Source.Token

/-!
# Operators

The binary operators stand on seven levels. A level decides how tightly its operators bind and
whether they chain, and both the grammar and the printer take these facts from here.

Specification §4.5 (the ladder of precedence).
-/

namespace Offside

/-- An operator between two operands. -/
inductive BinaryOperator where
  | add
  | subtract
  | multiply
  | divide
  | floorDivide
  | greater
  | greaterOrEqual
  | less
  | lessOrEqual
  | equal
  | notEqual
  | and
  | or
  | xor
  deriving DecidableEq, Inhabited, Repr

/-- An operator before its operand. -/
inductive UnaryOperator where
  | negate
  | not
  deriving DecidableEq, Inhabited, Repr

/-- The levels of binary operators, the loosest first. Specification §4.5. -/
inductive Level where
  | xor
  | or
  | and
  | equality
  | relation
  | additive
  | multiplicative
  deriving DecidableEq, Inhabited, Repr

namespace Level

/-- The operators of a level. -/
def operators : Level → List BinaryOperator
  | xor => [.xor]
  | or => [.or]
  | and => [.and]
  | equality => [.equal, .notEqual]
  | relation => [.greater, .greaterOrEqual, .less, .lessOrEqual]
  | additive => [.add, .subtract]
  | multiplicative => [.multiply, .divide, .floorDivide]

/-- An expression of the level may be the left operand of the same level. -/
def chains : Level → Bool
  | equality | relation => false
  | _ => true

/-- How tightly the operators of a level bind. Juxtaposition binds more loosely than any of them,
and a unary operator more tightly. -/
def precedence : Level → Nat
  | xor => 2
  | or => 3
  | and => 4
  | equality => 5
  | relation => 6
  | additive => 7
  | multiplicative => 8

end Level

namespace BinaryOperator

/-- The level of an operator. -/
def level : BinaryOperator → Level
  | xor => .xor
  | or => .or
  | and => .and
  | equal | notEqual => .equality
  | greater | greaterOrEqual | less | lessOrEqual => .relation
  | add | subtract => .additive
  | multiply | divide | floorDivide => .multiplicative

/-- The token that writes an operator. -/
def token : BinaryOperator → TokenKind
  | add => .plus
  | subtract => .minus
  | multiply => .star
  | divide => .slash
  | floorDivide => .doubleSlash
  | greater => .greater
  | greaterOrEqual => .greaterOrEqual
  | less => .less
  | lessOrEqual => .lessOrEqual
  | equal => .equal
  | notEqual => .notEqual
  | and => .kwAnd
  | or => .kwOr
  | xor => .kwXor

/-- Each operator stands on the one level that lists it. -/
theorem mem_operators_iff (operator : BinaryOperator) (level : Level) :
    operator ∈ level.operators ↔ operator.level = level := by
  cases operator <;> cases level <;> decide

end BinaryOperator

/-- The token that writes an operator. -/
def UnaryOperator.token : UnaryOperator → TokenKind
  | negate => .minus
  | not => .exclamation

end Offside
