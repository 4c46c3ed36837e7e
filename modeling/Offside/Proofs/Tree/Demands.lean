import Offside.Tree.Declaration

/-!
# Demands on trees

What is asked of a tree of expressions and statements is asked of each of its nodes. `Demands` says
what that is, and `Expression.Meets` and its companions that a tree meets it at every node; what
follows at each node from what is claimed below it is claimed of the whole tree (`Meets.elim`).
-/

namespace Offside

/-- What is asked of the nodes of a tree. -/
structure Demands where
  expression : Expression → Prop
  block : List Statement → Prop
  statement : Statement → Prop
  argument : String → Prop

mutual

/-- Every node of the expression meets the demands. -/
def Expression.Meets (demands : Demands) : Expression → Prop
  | .tuple location elements =>
    demands.expression (.tuple location elements) ∧ expressionsMeet demands elements
  | .list location elements =>
    demands.expression (.list location elements) ∧ expressionsMeet demands elements
  | .binary location operator left right =>
    demands.expression (.binary location operator left right) ∧ left.Meets demands ∧
      right.Meets demands
  | .unary location operator operand =>
    demands.expression (.unary location operator operand) ∧ operand.Meets demands
  | .property location root value =>
    demands.expression (.property location root value) ∧ root.Meets demands
  | .message location header arguments =>
    demands.expression (.message location header arguments) ∧ argumentsMeet demands arguments
  | .send location receiver message =>
    demands.expression (.send location receiver message) ∧ receiver.Meets demands ∧
      message.Meets demands
  | .block body => demands.expression (.block body) ∧ body.Meets demands
  | .conditional location condition body alternatives otherwise =>
    demands.expression (.conditional location condition body alternatives otherwise) ∧
      condition.Meets demands ∧ body.Meets demands ∧ elseIfsMeet demands alternatives ∧
      otherwiseMeets demands otherwise
  | .name location value => demands.expression (.name location value)
  | .string location value => demands.expression (.string location value)
  | .integer location value => demands.expression (.integer location value)
  | .float location value => demands.expression (.float location value)
  | .boolean location value => demands.expression (.boolean location value)
  | .character location value => demands.expression (.character location value)
  | .create location type => demands.expression (.create location type)

/-- Every node of the expressions meets the demands. -/
def expressionsMeet (demands : Demands) : List Expression → Prop
  | [] => True
  | expression :: rest => expression.Meets demands ∧ expressionsMeet demands rest

/-- Every node of the block meets the demands. -/
def Block.Meets (demands : Demands) : Block → Prop
  | .mk _ statements => demands.block statements ∧ statementsMeet demands statements

/-- Every node of the statements meets the demands. -/
def statementsMeet (demands : Demands) : List Statement → Prop
  | [] => True
  | statement :: rest => statement.Meets demands ∧ statementsMeet demands rest

/-- Every node of the statement meets the demands. -/
def Statement.Meets (demands : Demands) : Statement → Prop
  | .bind location pattern value =>
    demands.statement (.bind location pattern value) ∧ value.Meets demands
  | .assign location path value =>
    demands.statement (.assign location path value) ∧ value.Meets demands
  | .forEach location pattern iterable body =>
    demands.statement (.forEach location pattern iterable body) ∧ iterable.Meets demands ∧
      body.Meets demands
  | .loop location condition body =>
    demands.statement (.loop location condition body) ∧ condition.Meets demands ∧
      body.Meets demands
  | .expression location expression =>
    demands.statement (.expression location expression) ∧ expression.Meets demands

/-- Every node of the arguments meets the demands. -/
def argumentsMeet (demands : Demands) : List Argument → Prop
  | [] => True
  | argument :: rest => argument.Meets demands ∧ argumentsMeet demands rest

/-- Every node of the argument meets the demands. -/
def Argument.Meets (demands : Demands) : Argument → Prop
  | .mk _ key value => demands.argument key ∧ value.Meets demands

/-- Every node of the further conditions meets the demands. -/
def elseIfsMeet (demands : Demands) : List ElseIf → Prop
  | [] => True
  | alternative :: rest => alternative.Meets demands ∧ elseIfsMeet demands rest

/-- Every node of the further condition meets the demands. -/
def ElseIf.Meets (demands : Demands) : ElseIf → Prop
  | .mk _ condition body => condition.Meets demands ∧ body.Meets demands

/-- Every node of the body that may be missing meets the demands. -/
def otherwiseMeets (demands : Demands) : Option Block → Prop
  | none => True
  | some body => body.Meets demands

end

variable {demands other : Demands}

/-- Several expressions meet demands if each of them does. -/
theorem expressionsMeet_iff {expressions : List Expression} :
    expressionsMeet demands expressions ↔ ∀ expression ∈ expressions, expression.Meets demands := by
  induction expressions with
  | nil => simp [expressionsMeet]
  | cons expression rest ih => simp [expressionsMeet, ih]

/-- Several statements meet demands if each of them does. -/
theorem statementsMeet_iff {statements : List Statement} :
    statementsMeet demands statements ↔ ∀ statement ∈ statements, statement.Meets demands := by
  induction statements with
  | nil => simp [statementsMeet]
  | cons statement rest ih => simp [statementsMeet, ih]

/-- Several arguments meet demands if each of them does. -/
theorem argumentsMeet_iff {arguments : List Argument} :
    argumentsMeet demands arguments ↔ ∀ argument ∈ arguments, argument.Meets demands := by
  induction arguments with
  | nil => simp [argumentsMeet]
  | cons argument rest ih => simp [argumentsMeet, ih]

/-- Several further conditions meet demands if each of them does. -/
theorem elseIfsMeet_iff {alternatives : List ElseIf} :
    elseIfsMeet demands alternatives ↔ ∀ alternative ∈ alternatives, alternative.Meets demands := by
  induction alternatives with
  | nil => simp [elseIfsMeet]
  | cons alternative rest ih => simp [elseIfsMeet, ih]

/-- A body that may be missing meets demands if it does where there is one. -/
theorem otherwiseMeets_iff {otherwise : Option Block} :
    otherwiseMeets demands otherwise ↔ ∀ body ∈ otherwise, body.Meets demands := by
  cases otherwise <;> simp [otherwiseMeets]

/-- A proof about every node that meets the demands: what is claimed of a node follows from the
claims about what is below it. -/
structure Demands.Proof (demands : Demands) (ofExpression : Expression → Prop)
    (ofBlock : Block → Prop) (ofStatement : Statement → Prop) : Prop where
  name (location : Location) (value : String) : demands.expression (.name location value) →
    ofExpression (.name location value)
  string (location : Location) (value : String) : demands.expression (.string location value) →
    ofExpression (.string location value)
  integer (location : Location) (value : Int) : demands.expression (.integer location value) →
    ofExpression (.integer location value)
  float (location : Location) (value : Binary64) : demands.expression (.float location value) →
    ofExpression (.float location value)
  boolean (location : Location) (value : Bool) : demands.expression (.boolean location value) →
    ofExpression (.boolean location value)
  character (location : Location) (value : Char) :
    demands.expression (.character location value) → ofExpression (.character location value)
  create (location : Location) (type : TypeExpr) : demands.expression (.create location type) →
    ofExpression (.create location type)
  tuple (location : Location) (elements : List Expression) :
    demands.expression (.tuple location elements) →
      (∀ element ∈ elements, ofExpression element) → ofExpression (.tuple location elements)
  list (location : Location) (elements : List Expression) :
    demands.expression (.list location elements) →
      (∀ element ∈ elements, ofExpression element) → ofExpression (.list location elements)
  binary (location : Location) (operator : BinaryOperator) (left right : Expression) :
    demands.expression (.binary location operator left right) → ofExpression left →
      ofExpression right → ofExpression (.binary location operator left right)
  unary (location : Location) (operator : UnaryOperator) (operand : Expression) :
    demands.expression (.unary location operator operand) → ofExpression operand →
      ofExpression (.unary location operator operand)
  property (location : Location) (root : Expression) (value : String) :
    demands.expression (.property location root value) → ofExpression root →
      ofExpression (.property location root value)
  message (location : Location) (header : String) (arguments : List Argument) :
    demands.expression (.message location header arguments) →
      (∀ at' key value, .mk at' key value ∈ arguments →
        demands.argument key ∧ ofExpression value) →
      ofExpression (.message location header arguments)
  send (location : Location) (receiver message : Expression) :
    demands.expression (.send location receiver message) → ofExpression receiver →
      ofExpression message → ofExpression (.send location receiver message)
  block (body : Block) : demands.expression (.block body) → ofBlock body →
    ofExpression (.block body)
  conditional (location : Location) (condition : Expression) (body : Block)
      (alternatives : List ElseIf) (otherwise : Option Block) :
    demands.expression (.conditional location condition body alternatives otherwise) →
      ofExpression condition → ofBlock body →
      (∀ at' test further, .mk at' test further ∈ alternatives →
        ofExpression test ∧ ofBlock further) →
      (∀ last ∈ otherwise, ofBlock last) →
      ofExpression (.conditional location condition body alternatives otherwise)
  statements (location : Location) (statements : List Statement) : demands.block statements →
    (∀ statement ∈ statements, ofStatement statement) → ofBlock (.mk location statements)
  bind (location : Location) (pattern : Pattern) (value : Expression) :
    demands.statement (.bind location pattern value) → ofExpression value →
      ofStatement (.bind location pattern value)
  assign (location : Location) (path : Path) (value : Expression) :
    demands.statement (.assign location path value) → ofExpression value →
      ofStatement (.assign location path value)
  forEach (location : Location) (pattern : Pattern) (iterable : Expression) (body : Block) :
    demands.statement (.forEach location pattern iterable body) → ofExpression iterable →
      ofBlock body → ofStatement (.forEach location pattern iterable body)
  loop (location : Location) (condition : Expression) (body : Block) :
    demands.statement (.loop location condition body) → ofExpression condition → ofBlock body →
      ofStatement (.loop location condition body)
  expression (location : Location) (expression : Expression) :
    demands.statement (.expression location expression) → ofExpression expression →
      ofStatement (.expression location expression)

section Proof

variable {ofExpression : Expression → Prop} {ofBlock : Block → Prop}
  {ofStatement : Statement → Prop}

mutual

/-- What is proved of each form of expression holds of every expression that meets the demands. -/
theorem Expression.Meets.elim (h : demands.Proof ofExpression ofBlock ofStatement) :
    {expression : Expression} → expression.Meets demands → ofExpression expression
  | .name .., hmeets => h.name _ _ hmeets
  | .string .., hmeets => h.string _ _ hmeets
  | .integer .., hmeets => h.integer _ _ hmeets
  | .float .., hmeets => h.float _ _ hmeets
  | .boolean .., hmeets => h.boolean _ _ hmeets
  | .character .., hmeets => h.character _ _ hmeets
  | .create .., hmeets => h.create _ _ hmeets
  | .tuple .., hmeets => h.tuple _ _ hmeets.1 (expressionsMeet_elim h hmeets.2)
  | .list .., hmeets => h.list _ _ hmeets.1 (expressionsMeet_elim h hmeets.2)
  | .binary .., hmeets => h.binary _ _ _ _ hmeets.1 (hmeets.2.1.elim h) (hmeets.2.2.elim h)
  | .unary .., hmeets => h.unary _ _ _ hmeets.1 (hmeets.2.elim h)
  | .property .., hmeets => h.property _ _ _ hmeets.1 (hmeets.2.elim h)
  | .message .., hmeets => h.message _ _ _ hmeets.1 (argumentsMeet_elim h hmeets.2)
  | .send .., hmeets => h.send _ _ _ hmeets.1 (hmeets.2.1.elim h) (hmeets.2.2.elim h)
  | .block _, hmeets => h.block _ hmeets.1 (hmeets.2.elim h)
  | .conditional .., hmeets =>
    h.conditional _ _ _ _ _ hmeets.1 (hmeets.2.1.elim h) (hmeets.2.2.1.elim h)
      (elseIfsMeet_elim h hmeets.2.2.2.1) (otherwiseMeets_elim h hmeets.2.2.2.2)

private theorem expressionsMeet_elim (h : demands.Proof ofExpression ofBlock ofStatement) :
    {expressions : List Expression} → expressionsMeet demands expressions →
      ∀ expression ∈ expressions, ofExpression expression
  | [], _ => List.forall_mem_nil _
  | _ :: _, hmeets =>
    List.forall_mem_cons.2 ⟨hmeets.1.elim h, expressionsMeet_elim h hmeets.2⟩

/-- What is proved of each form holds of every body that meets the demands. -/
theorem Block.Meets.elim (h : demands.Proof ofExpression ofBlock ofStatement) :
    {block : Block} → block.Meets demands → ofBlock block
  | .mk .., hmeets => h.statements _ _ hmeets.1 (statementsMeet_elim h hmeets.2)

private theorem statementsMeet_elim (h : demands.Proof ofExpression ofBlock ofStatement) :
    {statements : List Statement} → statementsMeet demands statements →
      ∀ statement ∈ statements, ofStatement statement
  | [], _ => List.forall_mem_nil _
  | _ :: _, hmeets =>
    List.forall_mem_cons.2 ⟨hmeets.1.elim h, statementsMeet_elim h hmeets.2⟩

/-- What is proved of each form of statement holds of every statement that meets the demands. -/
theorem Statement.Meets.elim (h : demands.Proof ofExpression ofBlock ofStatement) :
    {statement : Statement} → statement.Meets demands → ofStatement statement
  | .bind .., hmeets => h.bind _ _ _ hmeets.1 (hmeets.2.elim h)
  | .assign .., hmeets => h.assign _ _ _ hmeets.1 (hmeets.2.elim h)
  | .forEach .., hmeets => h.forEach _ _ _ _ hmeets.1 (hmeets.2.1.elim h) (hmeets.2.2.elim h)
  | .loop .., hmeets => h.loop _ _ _ hmeets.1 (hmeets.2.1.elim h) (hmeets.2.2.elim h)
  | .expression .., hmeets => h.expression _ _ hmeets.1 (hmeets.2.elim h)

private theorem argumentsMeet_elim (h : demands.Proof ofExpression ofBlock ofStatement) :
    {arguments : List Argument} → argumentsMeet demands arguments →
      ∀ location key value, Argument.mk location key value ∈ arguments →
        demands.argument key ∧ ofExpression value
  | [], _ => fun _ _ _ hmem ↦ absurd hmem List.not_mem_nil
  | .mk .. :: _, hmeets => fun _ _ _ hmem ↦ by
    obtain heq | hmem := List.mem_cons.1 hmem
    · cases heq
      exact ⟨hmeets.1.1, hmeets.1.2.elim h⟩
    · exact argumentsMeet_elim h hmeets.2 _ _ _ hmem

private theorem elseIfsMeet_elim (h : demands.Proof ofExpression ofBlock ofStatement) :
    {alternatives : List ElseIf} → elseIfsMeet demands alternatives →
      ∀ location condition body, ElseIf.mk location condition body ∈ alternatives →
        ofExpression condition ∧ ofBlock body
  | [], _ => fun _ _ _ hmem ↦ absurd hmem List.not_mem_nil
  | .mk .. :: _, hmeets => fun _ _ _ hmem ↦ by
    obtain heq | hmem := List.mem_cons.1 hmem
    · cases heq
      exact ⟨hmeets.1.1.elim h, hmeets.1.2.elim h⟩
    · exact elseIfsMeet_elim h hmeets.2 _ _ _ hmem

private theorem otherwiseMeets_elim (h : demands.Proof ofExpression ofBlock ofStatement) :
    {otherwise : Option Block} → otherwiseMeets demands otherwise →
      ∀ body ∈ otherwise, ofBlock body
  | none, _ => fun _ hmem ↦ absurd hmem (Option.not_mem_none _)
  | some _, hmeets => fun _ hmem ↦ by
    cases hmem
    exact hmeets.elim h

end

end Proof

/-! ### Several demands at once -/

/-- Both demands on each node. -/
def Demands.and (demands other : Demands) : Demands where
  expression expression := demands.expression expression ∧ other.expression expression
  block statements := demands.block statements ∧ other.block statements
  statement statement := demands.statement statement ∧ other.statement statement
  argument key := demands.argument key ∧ other.argument key

/-- A tree that meets two demands meets both at once. -/
theorem Demands.proof_and (demands other : Demands) : demands.Proof
    (fun expression ↦ expression.Meets other → expression.Meets (demands.and other))
    (fun block ↦ block.Meets other → block.Meets (demands.and other))
    (fun statement ↦ statement.Meets other → statement.Meets (demands.and other)) where
  name _ _ h hother := ⟨h, hother⟩
  string _ _ h hother := ⟨h, hother⟩
  integer _ _ h hother := ⟨h, hother⟩
  float _ _ h hother := ⟨h, hother⟩
  boolean _ _ h hother := ⟨h, hother⟩
  character _ _ h hother := ⟨h, hother⟩
  create _ _ h hother := ⟨h, hother⟩
  tuple _ _ h ih hother := ⟨⟨h, hother.1⟩, expressionsMeet_iff.2 fun element hmem ↦
    ih element hmem (expressionsMeet_iff.1 hother.2 element hmem)⟩
  list _ _ h ih hother := ⟨⟨h, hother.1⟩, expressionsMeet_iff.2 fun element hmem ↦
    ih element hmem (expressionsMeet_iff.1 hother.2 element hmem)⟩
  binary _ _ _ _ h hleft hright hother :=
    ⟨⟨h, hother.1⟩, hleft hother.2.1, hright hother.2.2⟩
  unary _ _ _ h ih hother := ⟨⟨h, hother.1⟩, ih hother.2⟩
  property _ _ _ h ih hother := ⟨⟨h, hother.1⟩, ih hother.2⟩
  message _ _ _ h ih hother := ⟨⟨h, hother.1⟩, argumentsMeet_iff.2 fun
    | .mk location key value, hmem => by
      obtain ⟨hkey, hvalue⟩ := ih location key value hmem
      have hargument := argumentsMeet_iff.1 hother.2 _ hmem
      exact ⟨⟨hkey, hargument.1⟩, hvalue hargument.2⟩⟩
  send _ _ _ h hreceiver hmessage hother :=
    ⟨⟨h, hother.1⟩, hreceiver hother.2.1, hmessage hother.2.2⟩
  block _ h ih hother := ⟨⟨h, hother.1⟩, ih hother.2⟩
  conditional _ _ _ _ otherwise h hcondition hbody halternatives hotherwise hother := by
    refine ⟨⟨h, hother.1⟩, hcondition hother.2.1, hbody hother.2.2.1, elseIfsMeet_iff.2 ?_, ?_⟩
    · rintro ⟨location, test, further⟩ hmem
      obtain ⟨htest, hfurther⟩ := halternatives location test further hmem
      have halternative := elseIfsMeet_iff.1 hother.2.2.2.1 _ hmem
      exact ⟨htest halternative.1, hfurther halternative.2⟩
    · cases otherwise with
      | none => trivial
      | some last => exact hotherwise last rfl hother.2.2.2.2
  statements _ _ h ih hother := ⟨⟨h, hother.1⟩, statementsMeet_iff.2 fun statement hmem ↦
    ih statement hmem (statementsMeet_iff.1 hother.2 statement hmem)⟩
  bind _ _ _ h ih hother := ⟨⟨h, hother.1⟩, ih hother.2⟩
  assign _ _ _ h ih hother := ⟨⟨h, hother.1⟩, ih hother.2⟩
  forEach _ _ _ _ h hiterable hbody hother :=
    ⟨⟨h, hother.1⟩, hiterable hother.2.1, hbody hother.2.2⟩
  loop _ _ _ h hcondition hbody hother :=
    ⟨⟨h, hother.1⟩, hcondition hother.2.1, hbody hother.2.2⟩
  expression _ _ h ih hother := ⟨⟨h, hother.1⟩, ih hother.2⟩

/-- A body that meets two demands meets both at once. -/
theorem Block.Meets.and {body : Block} (h : body.Meets demands) (hother : body.Meets other) :
    body.Meets (demands.and other) := h.elim (demands.proof_and other) hother

end Offside
