import Offside.Proofs.Grammar.Soundness
import Offside.Proofs.Source.Legible
import Offside.Proofs.Source.Rows

/-!
# Where the nodes of trees are located

A node is located at the first token of the row that it is read from, but for grouping parentheses,
which leave no trace: in front of an expression any number of them may open, and the location is
that of the token behind them (`StandsAt`). A tree is located if all its nodes are, each in its own
part of the row (`Located`), and so is every tree that a rule reads from the tokens of a source text
(`Grammar.parse_located`).
-/

namespace Offside

open Packrat

/-- In a row that opens with the number of grouping parentheses, the location is that of the token
behind them, in a file and on the row of the first token. -/
structure StandsAt (groups : Nat) (row : List Token) (location : Location) : Prop where
  opening : ∀ token ∈ row.take groups, token.kind = .leftParen
  token : ∃ token, row[groups]? = some token ∧ token.location = location
  placed : location.isGenerated = false
  sameRow : ∃ first, row.head? = some first ∧ first.location.row? = location.row?

/-- Tokens one behind the other in a source text. -/
structure Standing (row : List Token) : Prop where
  placed : ∀ token ∈ row, token.location.isGenerated = false
  keepsRow : row.IsChain Token.KeepsRow

section Rows

variable {row first second : List Token} {token : Token} {groups : Nat} {location : Location}

private theorem Standing.tail (h : Standing (token :: row)) : Standing row :=
  ⟨fun other hmem ↦ h.placed other (List.mem_cons_of_mem _ hmem), h.keepsRow.tail⟩

private theorem Standing.left (h : Standing (first ++ second)) : Standing first :=
  ⟨fun other hmem ↦ h.placed other (List.mem_append_left _ hmem), h.keepsRow.left_of_append⟩

private theorem Standing.right (h : Standing (first ++ second)) : Standing second :=
  ⟨fun other hmem ↦ h.placed other (List.mem_append_right _ hmem), h.keepsRow.right_of_append⟩

private theorem Standing.extract (h : Standing row) (p q : Nat) : Standing (row.extract p q) := by
  have hdrop : Standing (row.drop p) := by
    rw [← List.take_append_drop p row] at h
    exact h.right
  rw [List.extract_eq_take_drop]
  rw [← List.take_append_drop (q - p) (row.drop p)] at hdrop
  exact hdrop.left

/-- The tokens of a source text stand one behind the other, the end of the input too. -/
theorem standing_of_ofSource {file source : String} (h : Token.ofSource file source = .ok row) :
    Standing row := by
  refine ⟨?_, Token.keepsRow_of_scan h⟩
  obtain ⟨front, last, rfl, hfront, -, hlast⟩ := Token.scanned_of_scan h
  intro token hmem
  obtain hmem | hmem := List.mem_append.1 hmem
  · exact (hfront token hmem).placed
  · rw [List.mem_singleton.1 hmem]
    exact hlast

/-- The first token stands behind no parentheses. -/
theorem Standing.head (h : Standing (token :: row)) : StandsAt 0 (token :: row) token.location :=
  ⟨fun _ hmem ↦ absurd hmem List.not_mem_nil, ⟨token, rfl, rfl⟩,
    h.placed token List.mem_cons_self, ⟨token, rfl, rfl⟩⟩

/-- What follows in the row changes nothing. -/
theorem StandsAt.append (h : StandsAt groups first location) (second : List Token) :
    StandsAt groups (first ++ second) location := by
  obtain ⟨hopening, ⟨token, htoken, hlocation⟩, hplaced, ⟨head, hhead, hrow⟩⟩ := h
  have hlt : groups < first.length := (List.getElem?_eq_some_iff.1 htoken).1
  refine ⟨?_, ⟨token, ?_, hlocation⟩, hplaced, ⟨head, ?_, hrow⟩⟩
  · rwa [List.take_append_of_le_length (Nat.le_of_lt hlt)]
  · rwa [List.getElem?_append_left hlt]
  · rw [List.head?_append, hhead, Option.some_or]

/-- One more parenthesis in front leaves the row of the file. -/
theorem StandsAt.grouped (h : StandsAt groups row location) (hrow : Standing (token :: row))
    (hkind : token.kind = .leftParen) : StandsAt (groups + 1) (token :: row) location := by
  obtain ⟨hopening, ⟨found, hfound, hlocation⟩, hplaced, ⟨head, hhead, hsame⟩⟩ := h
  refine ⟨?_, ⟨found, ?_, hlocation⟩, hplaced, ⟨token, rfl, ?_⟩⟩
  · rw [List.take_succ_cons]
    exact List.forall_mem_cons.2 ⟨hkind, hopening⟩
  · rwa [List.getElem?_cons_succ]
  · rw [← hsame, (List.isChain_cons.1 hrow.keepsRow).1 head hhead hkind]

end Rows

namespace Derivation

/-! ### Types, patterns and paths -/

/-- The type and all types inside are located, each in its part of the row. -/
inductive LocatedType : List Token → TypeExpr → Prop where
  | plain {word : Token} {name : String} {location : Location} : IsName word name →
      StandsAt 0 [word] location → LocatedType [word] (.named location name [])
  | generic {word less greater : Token} {name : String} {tokens : List Token}
      {arguments : List TypeExpr} {location : Location} : IsName word name → less.kind = .less →
      Commas LocatedType tokens arguments → greater.kind = .greater →
      StandsAt 0 (word :: less :: (tokens ++ [greater])) location →
      LocatedType (word :: less :: (tokens ++ [greater])) (.named location name arguments)
  | list {opening closing : Token} {tokens : List Token} {element : TypeExpr}
      {location : Location} : opening.kind = .leftBracket → LocatedType tokens element →
      closing.kind = .rightBracket → StandsAt 0 (opening :: (tokens ++ [closing])) location →
      LocatedType (opening :: (tokens ++ [closing])) (.list location element)
  | tuple {opening comma closing : Token} {head tail : List Token} {first : TypeExpr}
      {rest : List TypeExpr} {location : Location} : opening.kind = .leftParen →
      LocatedType head first → comma.kind = .comma → Listed LocatedType tail rest →
      closing.kind = .rightParen →
      StandsAt 0 (opening :: (head ++ comma :: (tail ++ [closing]))) location →
      LocatedType (opening :: (head ++ comma :: (tail ++ [closing])))
        (.tuple location (first :: rest))
  | variadic {periods : Token} {tokens : List Token} {inner : TypeExpr} {location : Location} :
      periods.kind = .doublePeriod → LocatedType tokens inner →
      StandsAt 0 (periods :: tokens) location →
      LocatedType (periods :: tokens) (.variadic location inner)

/-- The pattern and all patterns inside are located, each in its part of the row. -/
inductive LocatedPattern : List Token → Pattern → Prop where
  | name {word : Token} {name : String} {location : Location} : IsName word name →
      StandsAt 0 [word] location → LocatedPattern [word] (.name location name)
  | ignored {sign : Token} {location : Location} : sign.kind = .underscore →
      StandsAt 0 [sign] location → LocatedPattern [sign] (.ignored location)
  | list {opening closing : Token} {tokens : List Token} {patterns : List Pattern}
      {location : Location} : opening.kind = .leftBracket →
      Listed LocatedPattern tokens patterns → closing.kind = .rightBracket →
      StandsAt 0 (opening :: (tokens ++ [closing])) location →
      LocatedPattern (opening :: (tokens ++ [closing])) (.list location patterns)
  | tuple {opening comma closing : Token} {head tail : List Token} {first : Pattern}
      {rest : List Pattern} {location : Location} : opening.kind = .leftParen →
      LocatedPattern head first → comma.kind = .comma → Listed LocatedPattern tail rest →
      closing.kind = .rightParen →
      StandsAt 0 (opening :: (head ++ comma :: (tail ++ [closing]))) location →
      LocatedPattern (opening :: (head ++ comma :: (tail ++ [closing])))
        (.tuple location (first :: rest))
  | variadic {periods : Token} {location : Location} : periods.kind = .doublePeriod →
      StandsAt 0 [periods] location → LocatedPattern [periods] (.variadic location none)
  | variadicInner {periods : Token} {tokens : List Token} {inner : Pattern} {location : Location} :
      periods.kind = .doublePeriod → LocatedPattern tokens inner →
      StandsAt 0 (periods :: tokens) location →
      LocatedPattern (periods :: tokens) (.variadic location (some inner))

/-- The path and the paths inside are located, each in its part of the row. -/
inductive LocatedPath : List Token → Path → Prop where
  | name {word : Token} {name : String} {location : Location} : IsName word name →
      StandsAt 0 [word] location → LocatedPath [word] (.name location name)
  | property {tokens : List Token} {period word : Token} {inner : Path} {name : String}
      {location : Location} : LocatedPath tokens inner → period.kind = .period →
      IsName word name → StandsAt 0 (tokens ++ [period, word]) location →
      LocatedPath (tokens ++ [period, word]) (.property location inner name)

/-! ### Expressions and statements -/

mutual

/-- The expression and all nodes inside are located, each in its part of the row; the number is that
of the grouping parentheses which open the row. -/
inductive LocatedBehind : Nat → List Token → Expression → Prop where
  | conditional {word : Token} {test first further last : List Token} {condition : Expression}
      {body : Block} {alternatives : List ElseIf} {otherwise : Option Block}
      {location : Location} : word.kind = .kwIf → LocatedExpression test condition →
      LocatedBody first body → Many LocatedElseIf further alternatives →
      LocatedElse last otherwise →
      StandsAt 0 (word :: (test ++ (first ++ (further ++ last)))) location →
      LocatedBehind 0 (word :: (test ++ (first ++ (further ++ last))))
        (.conditional location condition body alternatives otherwise)
  | send {groups : Nat} {first second : List Token} {receiver message : Expression}
      {location : Location} : LocatedBehind groups first receiver →
      LocatedExpression second message → StandsAt groups (first ++ second) location →
      LocatedBehind groups (first ++ second) (.send location receiver message)
  | binary {groups : Nat} {first second : List Token} {sign : Token} {operator : BinaryOperator}
      {left right : Expression} {location : Location} : LocatedBehind groups first left →
      sign.kind = operator.token → LocatedExpression second right →
      StandsAt groups (first ++ sign :: second) location →
      LocatedBehind groups (first ++ sign :: second) (.binary location operator left right)
  | unary {operator : UnaryOperator} {sign : Token} {tokens : List Token} {operand : Expression}
      {location : Location} : sign.kind = operator.token → LocatedExpression tokens operand →
      StandsAt 0 (sign :: tokens) location →
      LocatedBehind 0 (sign :: tokens) (.unary location operator operand)
  | property {groups : Nat} {tokens : List Token} {period word : Token} {root : Expression}
      {name : String} {location : Location} : LocatedBehind groups tokens root →
      period.kind = .period → IsName word name →
      StandsAt groups (tokens ++ [period, word]) location →
      LocatedBehind groups (tokens ++ [period, word]) (.property location root name)
  | block {word : Token} {tokens : List Token} {colon location : Location}
      {statements : List Statement} : word.kind = .kwDo →
      LocatedBody tokens (.mk colon statements) → StandsAt 0 (word :: tokens) location →
      LocatedBehind 0 (word :: tokens) (.block (.mk location statements))
  | create {word : Token} {tokens : List Token} {type : TypeExpr} {location : Location} :
      word.kind = .kwNew → LocatedType tokens type → StandsAt 0 (word :: tokens) location →
      LocatedBehind 0 (word :: tokens) (.create location type)
  | message {opening word closing : Token} {tokens : List Token} {header : String}
      {arguments : List Argument} {location : Location} : opening.kind = .leftBrace →
      IsName word header → Listed LocatedArgument tokens arguments →
      closing.kind = .rightBrace → StandsAt 0 (opening :: word :: (tokens ++ [closing])) location →
      LocatedBehind 0 (opening :: word :: (tokens ++ [closing]))
        (.message location header arguments)
  | tuple {opening comma closing : Token} {head tail : List Token} {first : Expression}
      {rest : List Expression} {location : Location} : opening.kind = .leftParen →
      LocatedExpression head first → comma.kind = .comma → Listed LocatedExpression tail rest →
      closing.kind = .rightParen →
      StandsAt 0 (opening :: (head ++ comma :: (tail ++ [closing]))) location →
      LocatedBehind 0 (opening :: (head ++ comma :: (tail ++ [closing])))
        (.tuple location (first :: rest))
  | list {opening closing : Token} {tokens : List Token} {elements : List Expression}
      {location : Location} : opening.kind = .leftBracket →
      Listed LocatedExpression tokens elements → closing.kind = .rightBracket →
      StandsAt 0 (opening :: (tokens ++ [closing])) location →
      LocatedBehind 0 (opening :: (tokens ++ [closing])) (.list location elements)
  | name {word : Token} {name : String} {location : Location} : IsName word name →
      StandsAt 0 [word] location → LocatedBehind 0 [word] (.name location name)
  | string {token : Token} {value : String} {location : Location} : token.kind = .string →
      StandsAt 0 [token] location → LocatedBehind 0 [token] (.string location value)
  | integer {token : Token} {value : Int} {location : Location} : token.kind = .integer →
      StandsAt 0 [token] location → LocatedBehind 0 [token] (.integer location value)
  | float {token : Token} {value : Binary64} {location : Location} : token.kind = .float →
      StandsAt 0 [token] location → LocatedBehind 0 [token] (.float location value)
  | boolean {token : Token} {value : Bool} {location : Location} : token.kind = .boolean →
      StandsAt 0 [token] location → LocatedBehind 0 [token] (.boolean location value)
  | character {token : Token} {value : Char} {location : Location} : token.kind = .character →
      StandsAt 0 [token] location → LocatedBehind 0 [token] (.character location value)
  | grouped {groups : Nat} {opening closing : Token} {tokens : List Token} {value : Expression} :
      opening.kind = .leftParen → LocatedBehind groups tokens value →
      closing.kind = .rightParen →
      StandsAt (groups + 1) (opening :: (tokens ++ [closing])) value.location →
      LocatedBehind (groups + 1) (opening :: (tokens ++ [closing])) value

/-- The expression is located behind some number of grouping parentheses. -/
inductive LocatedExpression : List Token → Expression → Prop where
  | behind {groups : Nat} {tokens : List Token} {value : Expression} :
      LocatedBehind groups tokens value → LocatedExpression tokens value

/-- The body is located at its colon, and its statements are located. -/
inductive LocatedBody : List Token → Block → Prop where
  | mk {colon lineEnd : Token} {tokens : List Token} {statements : List Statement}
      {location : Location} : colon.kind = .colon → lineEnd.kind = .endOfLine →
      BlockOf LocatedStatement tokens statements →
      StandsAt 0 (colon :: lineEnd :: tokens) location →
      LocatedBody (colon :: lineEnd :: tokens) (.mk location statements)

/-- The further condition is located at the word that opens it. -/
inductive LocatedElseIf : List Token → ElseIf → Prop where
  | mk {word second : Token} {test tokens : List Token} {condition : Expression} {body : Block}
      {location : Location} : word.kind = .kwElse → second.kind = .kwIf →
      LocatedExpression test condition → LocatedBody tokens body →
      StandsAt 0 (word :: second :: (test ++ tokens)) location →
      LocatedElseIf (word :: second :: (test ++ tokens)) (.mk location condition body)

/-- The last body, if there is one, is located. -/
inductive LocatedElse : List Token → Option Block → Prop where
  | none : LocatedElse [] none
  | some {word : Token} {tokens : List Token} {body : Block} : word.kind = .kwElse →
      LocatedBody tokens body → LocatedElse (word :: tokens) (some body)

/-- The argument is located at its key. -/
inductive LocatedArgument : List Token → Argument → Prop where
  | mk {word colon : Token} {tokens : List Token} {key : String} {value : Expression}
      {location : Location} : IsName word key → colon.kind = .colon →
      LocatedExpression tokens value → StandsAt 0 (word :: colon :: tokens) location →
      LocatedArgument (word :: colon :: tokens) (.mk location key value)

/-- The statement and all nodes inside are located, each in its part of the row. A statement that is
an expression opens with as many grouping parentheses. -/
inductive LocatedStatement : List Token → Statement → Prop where
  | bind {word assign : Token} {target tokens ending : List Token} {pattern : Pattern}
      {value : Expression} {location : Location} : word.kind = .kwLet →
      LocatedPattern target pattern → assign.kind = .assign → LocatedExpression tokens value →
      IsEnd (word :: (target ++ assign :: tokens)) ending →
      StandsAt 0 (word :: (target ++ assign :: tokens) ++ ending) location →
      LocatedStatement (word :: (target ++ assign :: tokens) ++ ending)
        (.bind location pattern value)
  | assign {assign : Token} {target tokens ending : List Token} {path : Path} {value : Expression}
      {location : Location} : LocatedPath target path → assign.kind = .assign →
      LocatedExpression tokens value → IsEnd (target ++ assign :: tokens) ending →
      StandsAt 0 ((target ++ assign :: tokens) ++ ending) location →
      LocatedStatement ((target ++ assign :: tokens) ++ ending) (.assign location path value)
  | forEach {word second : Token} {target tokens last : List Token} {pattern : Pattern}
      {iterable : Expression} {body : Block} {location : Location} : word.kind = .kwFor →
      LocatedPattern target pattern → second.kind = .kwIn → LocatedExpression tokens iterable →
      LocatedBody last body →
      StandsAt 0 (word :: (target ++ second :: (tokens ++ last))) location →
      LocatedStatement (word :: (target ++ second :: (tokens ++ last)))
        (.forEach location pattern iterable body)
  | loop {word : Token} {tokens last : List Token} {condition : Expression} {body : Block}
      {location : Location} : word.kind = .kwWhile → LocatedExpression tokens condition →
      LocatedBody last body → StandsAt 0 (word :: (tokens ++ last)) location →
      LocatedStatement (word :: (tokens ++ last)) (.loop location condition body)
  | expression {groups : Nat} {tokens ending : List Token} {value : Expression}
      {location : Location} : LocatedBehind groups tokens value → IsEnd tokens ending →
      StandsAt groups (tokens ++ ending) location →
      LocatedStatement (tokens ++ ending) (.expression location value)

end

/-! ### Declarations -/

/-- The parameter is located at its name. -/
inductive LocatedParameter : List Token → Parameter → Prop where
  | plain {word : Token} {name : String} {location : Location} : IsName word name →
      StandsAt 0 [word] location → LocatedParameter [word] ⟨location, name, none⟩
  | typed {word colons : Token} {tokens : List Token} {name : String} {type : TypeExpr}
      {location : Location} : IsName word name → colons.kind = .doubleColon →
      LocatedType tokens type → StandsAt 0 (word :: colons :: tokens) location →
      LocatedParameter (word :: colons :: tokens) ⟨location, name, some type⟩

/-- The member is located at its name. -/
inductive LocatedMember : List Token → Member → Prop where
  | mk {word colons lineEnd : Token} {tokens : List Token} {name : String} {type : TypeExpr}
      {location : Location} : IsName word name → colons.kind = .doubleColon →
      LocatedType tokens type → lineEnd.kind = .endOfLine →
      StandsAt 0 (word :: colons :: (tokens ++ [lineEnd])) location →
      LocatedMember (word :: colons :: (tokens ++ [lineEnd])) ⟨location, name, type⟩

/-- The handler is located at its name. -/
inductive LocatedHandler : List Token → Handler → Prop where
  | mk {word opening closing : Token} {tokens last : List Token} {name : String}
      {parameters : List Parameter} {body : Block} {location : Location} : IsName word name →
      opening.kind = .leftParen → Listed LocatedParameter tokens parameters →
      closing.kind = .rightParen → LocatedBody last body →
      StandsAt 0 (word :: opening :: (tokens ++ closing :: last)) location →
      LocatedHandler (word :: opening :: (tokens ++ closing :: last))
        ⟨location, name, parameters, body⟩

/-- The member or the handler is located. -/
inductive LocatedItem : List Token → StructItem → Prop where
  | member {tokens : List Token} {declared : Member} : LocatedMember tokens declared →
      LocatedItem tokens (.member declared)
  | handler {tokens : List Token} {declared : Handler} : LocatedHandler tokens declared →
      LocatedItem tokens (.handler declared)

/-- The struct is located at the word that opens it. -/
inductive LocatedStruct : List Token → Struct → Prop where
  | mk {word title colon : Token} {ends tokens : List Token} {name : String}
      {items : List StructItem} {members : List Member} {handlers : List Handler}
      {location : Location} : word.kind = .kwStruct → IsName title name → colon.kind = .colon →
      ends ≠ [] → LineEnds ends → BlockOf LocatedItem tokens items →
      Merges items members handlers →
      StandsAt 0 (word :: title :: colon :: (ends ++ tokens)) location →
      LocatedStruct (word :: title :: colon :: (ends ++ tokens)) ⟨location, name, members, handlers⟩

/-- The program is located at its first token, whatever that is. -/
inductive LocatedProgram : List Token → Program → Prop where
  | mk {ends tokens : List Token} {last : Token} {structs : List Struct} {location : Location} :
      LineEnds ends → Lines LocatedStruct tokens structs → last.kind = .endOfInput →
      StandsAt 0 (ends ++ (tokens ++ [last])) location →
      LocatedProgram (ends ++ (tokens ++ [last])) ⟨location, structs⟩

/-- What a rule yields is located with all nodes inside, each in its part of the row. -/
def Located : (rule : Rule) → List Token → rule.Result → Prop
  | .program => LocatedProgram
  | .structDeclaration => LocatedStruct
  | .structItem => LocatedItem
  | .memberDeclaration => LocatedMember
  | .handlerDeclaration => LocatedHandler
  | .parameters => Commas LocatedParameter
  | .statement => LocatedStatement
  | .statementBlock => BlockOf LocatedStatement
  | .path => LocatedPath
  | .pattern => LocatedPattern
  | .typeExpression => LocatedType
  | .expression | .ifExpression | .application | .xor | .or | .and | .equality | .relation
  | .additive | .multiplicative | .unary | .property | .atom => LocatedExpression

/-! ### Where nodes stand -/

private theorem LocatedPath.standsAt {tokens : List Token} {path : Path}
    (h : LocatedPath tokens path) :
    StandsAt 0 tokens path.location := by
  cases h <;> assumption

private theorem LocatedBehind.standsAt {groups : Nat} {tokens : List Token} {value : Expression}
    (h : LocatedBehind groups tokens value) : StandsAt groups tokens value.location := by
  cases h <;> assumption

/-! ### Derived trees are located -/

mutual

private theorem IsType.located {tokens : List Token} {type : TypeExpr} :
    IsType tokens type → Standing tokens → LocatedType tokens type
  | .plain hname, hrow => .plain hname hrow.head
  | .generic hname hless harguments hgreater, hrow =>
    .generic hname hless (located_types harguments hrow.tail.tail.left) hgreater hrow.head
  | .list hopening helement hclosing, hrow =>
    .list hopening (helement.located hrow.tail.left) hclosing hrow.head
  | .tuple hopening hfirst hcomma .none hclosing, hrow =>
    .tuple hopening (hfirst.located hrow.tail.left) hcomma .none hclosing hrow.head
  | .tuple hopening hfirst hcomma (.some hrest) hclosing, hrow =>
    .tuple hopening (hfirst.located hrow.tail.left) hcomma
      (.some (located_types hrest hrow.tail.right.tail.left)) hclosing hrow.head
  | .variadic hperiods hinner, hrow => .variadic hperiods (hinner.located hrow.tail) hrow.head

private theorem located_types {tokens : List Token} {types : List TypeExpr} :
    Commas IsType tokens types → Standing tokens → Commas LocatedType tokens types
  | .one htype, hrow => .one (htype.located hrow)
  | .cons htype hcomma hrest, hrow =>
    .cons (htype.located hrow.left) hcomma (located_types hrest hrow.right.tail)

end

mutual

private theorem IsPattern.located {tokens : List Token} {pattern : Pattern} :
    IsPattern tokens pattern → Standing tokens → LocatedPattern tokens pattern
  | .name hname, hrow => .name hname hrow.head
  | .ignored hsign, hrow => .ignored hsign hrow.head
  | .list hopening .none hclosing _, hrow => .list hopening .none hclosing hrow.head
  | .list hopening (.some hpatterns) hclosing _, hrow =>
    .list hopening (.some (located_patterns hpatterns hrow.tail.left)) hclosing hrow.head
  | .tuple hopening hfirst hcomma .none hclosing _, hrow =>
    .tuple hopening (hfirst.located hrow.tail.left) hcomma .none hclosing hrow.head
  | .tuple hopening hfirst hcomma (.some hrest) hclosing _, hrow =>
    .tuple hopening (hfirst.located hrow.tail.left) hcomma
      (.some (located_patterns hrest hrow.tail.right.tail.left)) hclosing hrow.head
  | .variadic hperiods, hrow => .variadic hperiods hrow.head
  | .variadicInner hperiods hinner, hrow =>
    .variadicInner hperiods (hinner.located hrow.tail) hrow.head

private theorem located_patterns {tokens : List Token} {patterns : List Pattern} :
    Commas IsPattern tokens patterns → Standing tokens → Commas LocatedPattern tokens patterns
  | .one hpattern, hrow => .one (hpattern.located hrow)
  | .cons hpattern hcomma hrest, hrow =>
    .cons (hpattern.located hrow.left) hcomma (located_patterns hrest hrow.right.tail)

end

private theorem IsPath.located {tokens : List Token} {path : Path} :
    IsPath tokens path → Standing tokens → LocatedPath tokens path
  | .name hname, hrow => .name hname hrow.head
  | .property hinner hperiod hname, hrow =>
    have hlocated := hinner.located hrow.left
    .property hlocated hperiod hname (hlocated.standsAt.append _)

mutual

private theorem IsExpression.located {place : Place} {tokens : List Token} {value : Expression} :
    IsExpression place tokens value → Standing tokens → LocatedExpression tokens value
  | .conditional h, hrow | .application h, hrow | .receiver h, hrow | .operand h, hrow
  | .unsigned h, hrow | .atom h, hrow => h.located hrow
  | .branches hword hcondition hbody halternatives hotherwise, hrow =>
    .behind (.conditional hword (hcondition.located hrow.tail.left)
      (hbody.located hrow.tail.right.left)
      (located_elseIfs halternatives hrow.tail.right.right.left)
      (hotherwise.located hrow.tail.right.right.right) hrow.head)
  -- A left operand keeps its location for the whole expression.
  | .send hreceiver _ hmessage, hrow =>
    have ⟨hlocated⟩ := hreceiver.located hrow.left
    .behind (.send hlocated (hmessage.located hrow.right) (hlocated.standsAt.append _))
  | .chained _ _ hleft _ hsign hright, hrow | .single _ _ hleft _ hsign hright, hrow =>
    have ⟨hlocated⟩ := hleft.located hrow.left
    .behind (.binary hlocated hsign (hright.located hrow.right.tail) (hlocated.standsAt.append _))
  | .signed hsign hoperand, hrow =>
    .behind (.unary hsign (hoperand.located hrow.tail) hrow.head)
  | .property hroot _ hperiod hname, hrow =>
    have ⟨hlocated⟩ := hroot.located hrow.left
    .behind (.property hlocated hperiod hname (hlocated.standsAt.append _))
  | .block hword hbody, hrow => .behind (.block hword (hbody.located hrow.tail) hrow.head)
  | .create hword htype, hrow => .behind (.create hword (htype.located hrow.tail) hrow.head)
  | .message hopening hname .none hclosing, hrow =>
    .behind (.message hopening hname .none hclosing hrow.head)
  | .message hopening hname (.some harguments) hclosing, hrow =>
    .behind (.message hopening hname (.some (located_arguments harguments hrow.tail.tail.left))
      hclosing hrow.head)
  | .tuple hopening hfirst hcomma .none hclosing, hrow =>
    .behind (.tuple hopening (hfirst.located hrow.tail.left) hcomma .none hclosing hrow.head)
  | .tuple hopening hfirst hcomma (.some hrest) hclosing, hrow =>
    .behind (.tuple hopening (hfirst.located hrow.tail.left) hcomma
      (.some (located_expressions hrest hrow.tail.right.tail.left)) hclosing hrow.head)
  | .list hopening .none hclosing, hrow => .behind (.list hopening .none hclosing hrow.head)
  | .list hopening (.some helements) hclosing, hrow =>
    .behind (.list hopening (.some (located_expressions helements hrow.tail.left)) hclosing
      hrow.head)
  | .name hname, hrow => .behind (.name hname hrow.head)
  | .string hkind _, hrow => .behind (.string hkind hrow.head)
  | .integer hkind _, hrow => .behind (.integer hkind hrow.head)
  | .float hkind _, hrow => .behind (.float hkind hrow.head)
  | .boolean hkind _, hrow => .behind (.boolean hkind hrow.head)
  | .character hkind _, hrow => .behind (.character hkind hrow.head)
  | .grouped hopening hvalue hclosing, hrow =>
    have ⟨hlocated⟩ := hvalue.located hrow.tail.left
    .behind (.grouped hopening hlocated hclosing
      ((hlocated.standsAt.append _).grouped hrow hopening))

private theorem located_expressions {tokens : List Token} {expressions : List Expression} :
    Commas (IsExpression .expression) tokens expressions → Standing tokens →
      Commas LocatedExpression tokens expressions
  | .one h, hrow => .one (h.located hrow)
  | .cons h hcomma hrest, hrow =>
    .cons (h.located hrow.left) hcomma (located_expressions hrest hrow.right.tail)

private theorem IsBody.located {tokens : List Token} {body : Block} :
    IsBody tokens body → Standing tokens → LocatedBody tokens body
  | .mk hcolon hlineEnd (.mk hends hlines hne), hrow =>
    .mk hcolon hlineEnd (.mk hends (located_statements hlines hrow.tail.tail.right) hne) hrow.head

private theorem located_statements {tokens : List Token} {statements : List Statement} :
    Lines IsStatement tokens statements → Standing tokens → Lines LocatedStatement tokens statements
  | .nil, _ => .nil
  | .cons h hends hrest, hrow =>
    .cons (h.located hrow.left) hends (located_statements hrest hrow.right.right)

private theorem IsElseIf.located {tokens : List Token} {alternative : ElseIf} :
    IsElseIf tokens alternative → Standing tokens → LocatedElseIf tokens alternative
  | .mk hword hsecond hcondition hbody, hrow =>
    .mk hword hsecond (hcondition.located hrow.tail.tail.left)
      (hbody.located hrow.tail.tail.right) hrow.head

private theorem located_elseIfs {tokens : List Token} {alternatives : List ElseIf} :
    Many IsElseIf tokens alternatives → Standing tokens → Many LocatedElseIf tokens alternatives
  | .nil, _ => .nil
  | .cons h hrest, hrow => .cons (h.located hrow.left) (located_elseIfs hrest hrow.right)

private theorem IsElse.located {tokens : List Token} {otherwise : Option Block} :
    IsElse tokens otherwise → Standing tokens → LocatedElse tokens otherwise
  | .none, _ => .none
  | .some hword hbody, hrow => .some hword (hbody.located hrow.tail)

private theorem IsArgument.located {tokens : List Token} {argument : Argument} :
    IsArgument tokens argument → Standing tokens → LocatedArgument tokens argument
  | .mk hname hcolon hvalue, hrow =>
    .mk hname hcolon (hvalue.located hrow.tail.tail) hrow.head

private theorem located_arguments {tokens : List Token} {arguments : List Argument} :
    Commas IsArgument tokens arguments → Standing tokens →
      Commas LocatedArgument tokens arguments
  | .one h, hrow => .one (h.located hrow)
  | .cons h hcomma hrest, hrow =>
    .cons (h.located hrow.left) hcomma (located_arguments hrest hrow.right.tail)

private theorem IsStatement.located {tokens : List Token} {statement : Statement} :
    IsStatement tokens statement → Standing tokens → LocatedStatement tokens statement
  | .bind hword hpattern hassign hvalue hend, hrow =>
    .bind hword (hpattern.located hrow.left.tail.left) hassign
      (hvalue.located hrow.left.tail.right.tail) hend hrow.head
  | .assign hpath hassign hvalue hend, hrow =>
    have hlocated := hpath.located hrow.left.left
    .assign hlocated hassign (hvalue.located hrow.left.right.tail) hend
      ((hlocated.standsAt.append _).append _)
  | .forEach hword hpattern hsecond hiterable hbody, hrow =>
    .forEach hword (hpattern.located hrow.tail.left) hsecond
      (hiterable.located hrow.tail.right.tail.left) (hbody.located hrow.tail.right.tail.right)
      hrow.head
  | .loop hword hcondition hbody, hrow =>
    .loop hword (hcondition.located hrow.tail.left) (hbody.located hrow.tail.right) hrow.head
  | .expression h hend, hrow =>
    have ⟨hlocated⟩ := h.located hrow.left
    .expression hlocated hend (hlocated.standsAt.append _)

end

/-! ### Derived declarations are located -/

private theorem IsParameter.located {tokens : List Token} {parameter : Parameter} :
    IsParameter tokens parameter → Standing tokens → LocatedParameter tokens parameter
  | .plain hname, hrow => .plain hname hrow.head
  | .typed hname hcolons htype, hrow =>
    .typed hname hcolons (htype.located hrow.tail.tail) hrow.head

private theorem located_parameters {tokens : List Token} {parameters : List Parameter} :
    Commas IsParameter tokens parameters → Standing tokens →
      Commas LocatedParameter tokens parameters
  | .one h, hrow => .one (h.located hrow)
  | .cons h hcomma hrest, hrow =>
    .cons (h.located hrow.left) hcomma (located_parameters hrest hrow.right.tail)

private theorem IsMember.located {tokens : List Token} {member : Member} :
    IsMember tokens member → Standing tokens → LocatedMember tokens member
  | .mk hname hcolons htype hlineEnd, hrow =>
    .mk hname hcolons (htype.located hrow.tail.tail.left) hlineEnd hrow.head

private theorem IsHandler.located {tokens : List Token} {handler : Handler}
    (h : IsHandler tokens handler) (hrow : Standing tokens) : LocatedHandler tokens handler := by
  cases h with
  | mk hname hopening hparameters hclosing hbody =>
    refine .mk hname hopening ?_ hclosing (hbody.located hrow.tail.tail.right.tail) hrow.head
    cases hparameters with
    | none => exact .none
    | some hparameters => exact .some (located_parameters hparameters hrow.tail.tail.left)

private theorem IsItem.located {tokens : List Token} {item : StructItem} :
    IsItem tokens item → Standing tokens → LocatedItem tokens item
  | .member h, hrow => .member (h.located hrow)
  | .handler h, hrow => .handler (h.located hrow)

private theorem located_lines {α : Type} {Item Other : List Token → α → Prop}
    (hitem : ∀ tokens item, Item tokens item → Standing tokens → Other tokens item)
    {tokens : List Token} {items : List α} :
    Lines Item tokens items → Standing tokens → Lines Other tokens items
  | .nil, _ => .nil
  | .cons h hends hrest, hrow =>
    .cons (hitem _ _ h hrow.left) hends (located_lines hitem hrest hrow.right.right)

private theorem IsStruct.located {tokens : List Token} {struct : Struct} :
    IsStruct tokens struct → Standing tokens → LocatedStruct tokens struct
  | .mk hword hname hcolon hne hends (.mk hblanks hlines hitems) hmerges, hrow =>
    .mk hword hname hcolon hne hends (.mk hblanks (located_lines (fun _ _ h hitem ↦ h.located hitem)
      hlines hrow.tail.tail.tail.right.right) hitems) hmerges hrow.head

private theorem IsProgram.located {tokens : List Token} {program : Program} :
    IsProgram tokens program → Standing tokens → LocatedProgram tokens program
  | .mk hends hlines hlast hfirst, hrow => by
    refine .mk hends (located_lines (fun _ _ h hitem ↦ h.located hitem) hlines hrow.right.left)
      hlast ?_
    obtain ⟨rest, hrest⟩ := List.head?_eq_some_iff.1 hfirst
    rw [hrest] at hrow ⊢
    exact hrow.head

/-- What the grammar derives from tokens of a source text is located. -/
theorem Derives.located {rule : Rule} {tokens : List Token} {found : rule.Result}
    (h : Derives rule tokens found) (hrow : Standing tokens) : Located rule tokens found := by
  cases rule with
  | program => exact IsProgram.located h hrow
  | structDeclaration => exact IsStruct.located h hrow
  | structItem => exact IsItem.located h hrow
  | memberDeclaration => exact IsMember.located h hrow
  | handlerDeclaration => exact IsHandler.located h hrow
  | parameters => exact located_parameters h hrow
  | statement => exact IsStatement.located h hrow
  | statementBlock =>
    obtain ⟨hends, hlines, hne⟩ := h
    exact .mk hends (located_statements hlines hrow.right) hne
  | path => exact IsPath.located h hrow
  | pattern => exact IsPattern.located h hrow
  | typeExpression => exact IsType.located h hrow
  | expression | ifExpression | application | xor | or | and | equality | relation | additive
  | multiplicative | unary | property | atom => exact IsExpression.located h hrow

end Derivation

namespace Grammar

open Offside.Derivation

/-- What a rule reads from a position inside the tokens of a source text is located, and so are all
nodes of it, each in the range that it is read from: at the first token of the range, or behind the
grouping parentheses that open it and on their row. -/
theorem parse_located {file source : String} {tokens : List Token}
    (htokens : Token.ofSource file source = .ok tokens) {memoize : Bool}
    {actions : List Session.Action} {s : State}
    (hreached : s ∈ Session.reached ⟨tokens.toArray, memoize⟩ actions)
    (blocks : List Nat) {p : Nat} (hp : p < tokens.length) {rule : Rule} {found : rule.Result}
    {s' : State}
    (h : parse (.rule rule) ⟨tokens.toArray, memoize⟩ ⟨p, blocks, s.table⟩ = .ok (.ok found, s')) :
    p ≤ s'.position ∧ s'.position ≤ tokens.length ∧
      Located rule (tokens.extract p s'.position) found := by
  have hreads := reads_of_parse htokens hreached blocks h
  have hwithin := hreads.moves.within
  unfold Input.Within at hwithin
  simp only [List.size_toArray] at hwithin
  exact ⟨hwithin.1, by omega,
    (hreads.derives_extract hp).located ((standing_of_ofSource htokens).extract p s'.position)⟩

/-- The tokens of a sum whose first operand stands between parentheses. -/
def groupedSum : List Token :=
  [⟨⟨.leftParen, .none⟩, .concrete "f" 1 1 0⟩, ⟨⟨.identifier, .text "a"⟩, .concrete "f" 1 2 1⟩,
    ⟨⟨.rightParen, .none⟩, .concrete "f" 1 3 2⟩, ⟨⟨.plus, .none⟩, .concrete "f" 1 4 3⟩,
    ⟨⟨.identifier, .text "b"⟩, .concrete "f" 1 5 4⟩, ⟨⟨.endOfLine, .none⟩, .concrete "f" 1 6 5⟩,
    ⟨⟨.endOfInput, .none⟩, .concrete "f" 2 1 6⟩]

-- The answer is a statement at the location, read up to the position.
private def readsAt (location : Location) (stop : Nat) :
    Except Fault (Outcome Statement × State) → Bool
  | .ok (.ok found, reached) => found.location = location ∧ reached.position = stop
  | _ => false

private theorem exists_of_readsAt {location : Location} {stop : Nat}
    {answer : Except Fault (Outcome Statement × State)} (h : readsAt location stop answer = true) :
    ∃ found s', answer = .ok (.ok found, s') ∧ found.location = location ∧ s'.position = stop := by
  obtain fault | ⟨found | failure | failure, reached⟩ := answer
  · cases h
  · exact ⟨found, reached, rfl, of_decide_eq_true h⟩
  · cases h
  · cases h

/-- The sum is a statement that is located at its second token. -/
theorem parse_located_groupedSum :
    ∃ found, Statement.location found = .concrete "f" 1 2 1 ∧
      LocatedStatement (groupedSum.extract 0 6) found := by
  have htokens : Token.ofSource "f" "(a)+b\n" = .ok groupedSum := by decide +kernel
  obtain ⟨found, s', hrun, hlocation, hposition⟩ : ∃ found s',
      parse (.rule .statement) ⟨groupedSum.toArray, false⟩ ⟨0, [], State.start.table⟩ =
        .ok (.ok found, s') ∧ found.location = .concrete "f" 1 2 1 ∧ s'.position = 6 :=
    exists_of_readsAt (by decide +kernel)
  have hreached : State.start ∈ Session.reached ⟨groupedSum.toArray, false⟩ [] := .head _
  obtain ⟨-, -, hlocated⟩ := parse_located htokens hreached [] (by decide) hrun
  rw [hposition] at hlocated
  exact ⟨found, hlocation, hlocated⟩

end Grammar

end Offside
