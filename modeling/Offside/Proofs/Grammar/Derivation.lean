import Offside.Grammar.Rule
import Offside.Proofs.Packrat.TokenRow

/-!
# The grammar as a relation

Which rows of tokens are derived as which trees, alternative by alternative and without any order
among them: a row is cut into the parts of a production, each token standing in one part. A tree
gets its locations from the tokens, the one of its first token as a rule. Left operands come as
whole expressions of their level, so that levels that chain associate to the left. Columns are no
matter of the grammar.
-/

namespace Offside.Derivation

open Packrat

/-! ### Names, types, patterns and paths -/

/-- The rows of tokens that are a type. -/
inductive IsType : List Token → TypeExpr → Prop where
  | plain {word : Token} {name : String} : IsName word name →
      IsType [word] (.named word.location name [])
  | generic {word less greater : Token} {name : String} {tokens : List Token}
      {arguments : List TypeExpr} : IsName word name → less.kind = .less →
      Commas IsType tokens arguments → greater.kind = .greater →
      IsType (word :: less :: (tokens ++ [greater])) (.named word.location name arguments)
  | list {opening closing : Token} {tokens : List Token} {element : TypeExpr} :
      opening.kind = .leftBracket → IsType tokens element → closing.kind = .rightBracket →
      IsType (opening :: (tokens ++ [closing])) (.list opening.location element)
  | tuple {opening comma closing : Token} {head tail : List Token} {first : TypeExpr}
      {rest : List TypeExpr} : opening.kind = .leftParen → IsType head first →
      comma.kind = .comma → Listed IsType tail rest → closing.kind = .rightParen →
      IsType (opening :: (head ++ comma :: (tail ++ [closing])))
        (.tuple opening.location (first :: rest))
  | variadic {periods : Token} {tokens : List Token} {inner : TypeExpr} :
      periods.kind = .doublePeriod → IsType tokens inner →
      IsType (periods :: tokens) (.variadic periods.location inner)

/-- At most one of the patterns takes the rest. -/
def OneVariadic (patterns : List Pattern) : Prop :=
  (patterns.filter Pattern.isVariadic).length ≤ 1

/-- The rows of tokens that are a pattern. -/
inductive IsPattern : List Token → Pattern → Prop where
  | name {word : Token} {name : String} : IsName word name →
      IsPattern [word] (.name word.location name)
  | ignored {sign : Token} : sign.kind = .underscore → IsPattern [sign] (.ignored sign.location)
  | list {opening closing : Token} {tokens : List Token} {patterns : List Pattern} :
      opening.kind = .leftBracket → Listed IsPattern tokens patterns →
      closing.kind = .rightBracket → OneVariadic patterns →
      IsPattern (opening :: (tokens ++ [closing])) (.list opening.location patterns)
  | tuple {opening comma closing : Token} {head tail : List Token} {first : Pattern}
      {rest : List Pattern} : opening.kind = .leftParen → IsPattern head first →
      comma.kind = .comma → Listed IsPattern tail rest → closing.kind = .rightParen →
      OneVariadic (first :: rest) →
      IsPattern (opening :: (head ++ comma :: (tail ++ [closing])))
        (.tuple opening.location (first :: rest))
  | variadic {periods : Token} : periods.kind = .doublePeriod →
      IsPattern [periods] (.variadic periods.location none)
  | variadicInner {periods : Token} {tokens : List Token} {inner : Pattern} :
      periods.kind = .doublePeriod → IsPattern tokens inner →
      IsPattern (periods :: tokens) (.variadic periods.location (some inner))

/-- The rows of tokens that are a path. -/
inductive IsPath : List Token → Path → Prop where
  | name {word : Token} {name : String} : IsName word name →
      IsPath [word] (.name word.location name)
  | property {tokens : List Token} {period word : Token} {inner : Path} {name : String} :
      IsPath tokens inner → period.kind = .period → IsName word name →
      IsPath (tokens ++ [period, word]) (.property inner.location inner name)

/-! ### Expressions and statements -/

/-- The rules for expressions, from the loosest to the tightest. -/
inductive Place where
  | expression
  | conditional
  | application
  | level (level : Level)
  | unary
  | property
  | atom

/-- Where the operands of a level stand. -/
def operandPlace : Level → Place
  | .xor => .level .or
  | .or => .level .and
  | .and => .level .equality
  | .equality => .level .relation
  | .relation => .level .additive
  | .additive => .level .multiplicative
  | .multiplicative => .unary

/-- What ends a statement of the given tokens: a line end, or nothing if the last of the tokens is
one. -/
inductive IsEnd (statement : List Token) : List Token → Prop where
  | lineEnd {token : Token} : token.kind = .endOfLine → IsEnd statement [token]
  | behind : EndsLine statement → IsEnd statement []

mutual

/-- The rows of tokens that are an expression of a place. -/
inductive IsExpression : Place → List Token → Expression → Prop where
  | conditional {tokens : List Token} {value : Expression} :
      IsExpression .conditional tokens value → IsExpression .expression tokens value
  | application {tokens : List Token} {value : Expression} :
      IsExpression .application tokens value → IsExpression .expression tokens value
  | branches {word : Token} {test first further last : List Token} {condition : Expression}
      {body : Block} {alternatives : List ElseIf} {otherwise : Option Block} :
      word.kind = .kwIf → IsExpression .expression test condition → IsBody first body →
      Many IsElseIf further alternatives → IsElse last otherwise →
      IsExpression .conditional (word :: (test ++ (first ++ (further ++ last))))
        (.conditional word.location condition body alternatives otherwise)
  | receiver {tokens : List Token} {value : Expression} :
      IsExpression (.level .xor) tokens value → IsExpression .application tokens value
  | send {first second : List Token} {receiver message : Expression} :
      IsExpression .application first receiver → ¬ EndsLine first →
      IsExpression (.level .xor) second message →
      IsExpression .application (first ++ second) (.send receiver.location receiver message)
  | operand {level : Level} {tokens : List Token} {value : Expression} :
      IsExpression (operandPlace level) tokens value → IsExpression (.level level) tokens value
  | chained {level : Level} {first second : List Token} {sign : Token} {operator : BinaryOperator}
      {left right : Expression} : level.chains = true → operator.level = level →
      IsExpression (.level level) first left → ¬ EndsLine first → sign.kind = operator.token →
      IsExpression (operandPlace level) second right →
      IsExpression (.level level) (first ++ sign :: second)
        (.binary left.location operator left right)
  | single {level : Level} {first second : List Token} {sign : Token} {operator : BinaryOperator}
      {left right : Expression} : level.chains = false → operator.level = level →
      IsExpression (operandPlace level) first left → ¬ EndsLine first →
      sign.kind = operator.token → IsExpression (operandPlace level) second right →
      IsExpression (.level level) (first ++ sign :: second)
        (.binary left.location operator left right)
  | signed {operator : UnaryOperator} {sign : Token} {tokens : List Token} {operand : Expression} :
      sign.kind = operator.token → IsExpression .property tokens operand →
      IsExpression .unary (sign :: tokens) (.unary sign.location operator operand)
  | unsigned {tokens : List Token} {value : Expression} :
      IsExpression .property tokens value → IsExpression .unary tokens value
  | atom {tokens : List Token} {value : Expression} :
      IsExpression .atom tokens value → IsExpression .property tokens value
  | property {tokens : List Token} {period word : Token} {root : Expression} {name : String} :
      IsExpression .property tokens root → ¬ EndsLine tokens → period.kind = .period →
      IsName word name →
      IsExpression .property (tokens ++ [period, word]) (.property root.location root name)
  | block {word : Token} {tokens : List Token} {location : Location} {statements : List Statement} :
      word.kind = .kwDo → IsBody tokens (.mk location statements) →
      IsExpression .atom (word :: tokens) (.block (.mk word.location statements))
  | create {word : Token} {tokens : List Token} {type : TypeExpr} :
      word.kind = .kwNew → IsType tokens type →
      IsExpression .atom (word :: tokens) (.create word.location type)
  | message {opening word closing : Token} {tokens : List Token} {header : String}
      {arguments : List Argument} : opening.kind = .leftBrace → IsName word header →
      Listed IsArgument tokens arguments → closing.kind = .rightBrace →
      IsExpression .atom (opening :: word :: (tokens ++ [closing]))
        (.message opening.location header arguments)
  | tuple {opening comma closing : Token} {head tail : List Token} {first : Expression}
      {rest : List Expression} : opening.kind = .leftParen →
      IsExpression .expression head first → comma.kind = .comma →
      Listed (IsExpression .expression) tail rest → closing.kind = .rightParen →
      IsExpression .atom (opening :: (head ++ comma :: (tail ++ [closing])))
        (.tuple opening.location (first :: rest))
  | list {opening closing : Token} {tokens : List Token} {elements : List Expression} :
      opening.kind = .leftBracket → Listed (IsExpression .expression) tokens elements →
      closing.kind = .rightBracket →
      IsExpression .atom (opening :: (tokens ++ [closing])) (.list opening.location elements)
  | name {word : Token} {name : String} : IsName word name →
      IsExpression .atom [word] (.name word.location name)
  | string {token : Token} {value : String} : token.kind = .string → token.payload = .text value →
      IsExpression .atom [token] (.string token.location value)
  | integer {token : Token} {value : Int} : token.kind = .integer →
      token.payload = .integer value → IsExpression .atom [token] (.integer token.location value)
  | float {token : Token} {value : Binary64} : token.kind = .float →
      token.payload = .float value → IsExpression .atom [token] (.float token.location value)
  | boolean {token : Token} {value : Bool} : token.kind = .boolean →
      token.payload = .boolean value → IsExpression .atom [token] (.boolean token.location value)
  | character {token : Token} {value : Char} : token.kind = .character →
      token.payload = .character value →
      IsExpression .atom [token] (.character token.location value)
  | grouped {opening closing : Token} {tokens : List Token} {value : Expression} :
      opening.kind = .leftParen → IsExpression .expression tokens value →
      closing.kind = .rightParen → IsExpression .atom (opening :: (tokens ++ [closing])) value

/-- A colon, a line end and a block of statements. -/
inductive IsBody : List Token → Block → Prop where
  | mk {colon lineEnd : Token} {tokens : List Token} {statements : List Statement} :
      colon.kind = .colon → lineEnd.kind = .endOfLine → BlockOf IsStatement tokens statements →
      IsBody (colon :: lineEnd :: tokens) (.mk colon.location statements)

/-- A further condition and its body. -/
inductive IsElseIf : List Token → ElseIf → Prop where
  | mk {word second : Token} {test tokens : List Token} {condition : Expression}
      {body : Block} : word.kind = .kwElse → second.kind = .kwIf →
      IsExpression .expression test condition → IsBody tokens body →
      IsElseIf (word :: second :: (test ++ tokens)) (.mk word.location condition body)

/-- A last body, or nothing. -/
inductive IsElse : List Token → Option Block → Prop where
  | none : IsElse [] none
  | some {word : Token} {tokens : List Token} {body : Block} : word.kind = .kwElse →
      IsBody tokens body → IsElse (word :: tokens) (some body)

/-- A key, a colon and a value. -/
inductive IsArgument : List Token → Argument → Prop where
  | mk {word colon : Token} {tokens : List Token} {key : String} {value : Expression} :
      IsName word key → colon.kind = .colon → IsExpression .expression tokens value →
      IsArgument (word :: colon :: tokens) (.mk word.location key value)

/-- The rows of tokens that are a statement. -/
inductive IsStatement : List Token → Statement → Prop where
  | bind {word assign : Token} {target tokens ending : List Token} {pattern : Pattern}
      {value : Expression} : word.kind = .kwLet → IsPattern target pattern →
      assign.kind = .assign → IsExpression .expression tokens value →
      IsEnd (word :: (target ++ assign :: tokens)) ending →
      IsStatement (word :: (target ++ assign :: tokens) ++ ending)
        (.bind word.location pattern value)
  | assign {assign : Token} {target tokens ending : List Token} {path : Path} {value : Expression} :
      IsPath target path → assign.kind = .assign → IsExpression .expression tokens value →
      IsEnd (target ++ assign :: tokens) ending →
      IsStatement ((target ++ assign :: tokens) ++ ending) (.assign path.location path value)
  | forEach {word second : Token} {target tokens last : List Token} {pattern : Pattern}
      {iterable : Expression} {body : Block} : word.kind = .kwFor →
      IsPattern target pattern → second.kind = .kwIn →
      IsExpression .expression tokens iterable → IsBody last body →
      IsStatement (word :: (target ++ second :: (tokens ++ last)))
        (.forEach word.location pattern iterable body)
  | loop {word : Token} {tokens last : List Token} {condition : Expression} {body : Block} :
      word.kind = .kwWhile → IsExpression .expression tokens condition → IsBody last body →
      IsStatement (word :: (tokens ++ last)) (.loop word.location condition body)
  | expression {tokens ending : List Token} {value : Expression} :
      IsExpression .expression tokens value → IsEnd tokens ending →
      IsStatement (tokens ++ ending) (.expression value.location value)

end

/-! ### Declarations -/

/-- A name with an optional type. -/
inductive IsParameter : List Token → Parameter → Prop where
  | plain {word : Token} {name : String} : IsName word name →
      IsParameter [word] ⟨word.location, name, none⟩
  | typed {word colons : Token} {tokens : List Token} {name : String} {type : TypeExpr} :
      IsName word name → colons.kind = .doubleColon → IsType tokens type →
      IsParameter (word :: colons :: tokens) ⟨word.location, name, some type⟩

/-- A name and its type on a line. -/
inductive IsMember : List Token → Member → Prop where
  | mk {word colons lineEnd : Token} {tokens : List Token} {name : String} {type : TypeExpr} :
      IsName word name → colons.kind = .doubleColon → IsType tokens type →
      lineEnd.kind = .endOfLine →
      IsMember (word :: colons :: (tokens ++ [lineEnd])) ⟨word.location, name, type⟩

/-- A name, parameters between parentheses and a body. -/
inductive IsHandler : List Token → Handler → Prop where
  | mk {word opening closing : Token} {tokens last : List Token} {name : String}
      {parameters : List Parameter} {body : Block} : IsName word name →
      opening.kind = .leftParen → Listed IsParameter tokens parameters →
      closing.kind = .rightParen → IsBody last body →
      IsHandler (word :: opening :: (tokens ++ closing :: last))
        ⟨word.location, name, parameters, body⟩

/-- A member or a handler. -/
inductive IsItem : List Token → StructItem → Prop where
  | member {tokens : List Token} {declared : Member} : IsMember tokens declared →
      IsItem tokens (.member declared)
  | handler {tokens : List Token} {declared : Handler} : IsHandler tokens declared →
      IsItem tokens (.handler declared)

/-- The items are the members and the handlers, merged in some order that keeps the order of the
members and that of the handlers. -/
inductive Merges : List StructItem → List Member → List Handler → Prop where
  | nil : Merges [] [] []
  | member {items : List StructItem} {declared : Member} {members : List Member}
      {handlers : List Handler} : Merges items members handlers →
      Merges (.member declared :: items) (declared :: members) handlers
  | handler {items : List StructItem} {declared : Handler} {members : List Member}
      {handlers : List Handler} : Merges items members handlers →
      Merges (.handler declared :: items) members (declared :: handlers)

/-- A name and a block of members and handlers. -/
inductive IsStruct : List Token → Struct → Prop where
  | mk {word title colon : Token} {ends tokens : List Token} {name : String}
      {items : List StructItem} {members : List Member} {handlers : List Handler} :
      word.kind = .kwStruct → IsName title name → colon.kind = .colon → ends ≠ [] →
      LineEnds ends → BlockOf IsItem tokens items → Merges items members handlers →
      IsStruct (word :: title :: colon :: (ends ++ tokens)) ⟨word.location, name, members, handlers⟩

/-- Structs up to the end of the input. -/
inductive IsProgram : List Token → Program → Prop where
  | mk {ends tokens : List Token} {last : Token} {first : Token} {structs : List Struct} :
      LineEnds ends → Lines IsStruct tokens structs → last.kind = .endOfInput →
      (ends ++ (tokens ++ [last])).head? = some first →
      IsProgram (ends ++ (tokens ++ [last])) ⟨first.location, structs⟩

/-- The rows of tokens that a rule derives as a result. -/
def Derives : (rule : Rule) → List Token → rule.Result → Prop
  | .program => IsProgram
  | .structDeclaration => IsStruct
  | .structItem => IsItem
  | .memberDeclaration => IsMember
  | .handlerDeclaration => IsHandler
  | .parameters => Commas IsParameter
  | .statement => IsStatement
  | .statementBlock => BlockOf IsStatement
  | .path => IsPath
  | .expression => IsExpression .expression
  | .ifExpression => IsExpression .conditional
  | .application => IsExpression .application
  | .xor => IsExpression (.level .xor)
  | .or => IsExpression (.level .or)
  | .and => IsExpression (.level .and)
  | .equality => IsExpression (.level .equality)
  | .relation => IsExpression (.level .relation)
  | .additive => IsExpression (.level .additive)
  | .multiplicative => IsExpression (.level .multiplicative)
  | .unary => IsExpression .unary
  | .property => IsExpression .property
  | .atom => IsExpression .atom
  | .pattern => IsPattern
  | .typeExpression => IsType

end Offside.Derivation
