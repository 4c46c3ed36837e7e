import Mathlib.Logic.Relation
import Offside.Proofs.Grammar.Legibility
import Offside.Proofs.Source.Spelling

/-!
# The parts of programs

Every part of a program that is read from a source text is proper, at whatever depth it stands
(`Program.isProper_of_contains`): nothing is empty that the grammar wants filled, brackets of
patterns take the rest at most once, numbers are those that literals write, and names are scanned as
names. What is directly inside a well-formed part is well-formed (`Part.WellFormed.children`), and
so is all that the part contains; and what is well-formed is proper (`Part.WellFormed.isProper`).
-/

namespace Offside

/-- A part of a program. -/
inductive Part where
  | program (whole : Program)
  | struct (whole : Struct)
  | member (whole : Member)
  | handler (whole : Handler)
  | parameter (whole : Parameter)
  | block (whole : Block)
  | statement (whole : Statement)
  | expression (whole : Expression)
  | argument (whole : Argument)
  | alternative (whole : ElseIf)
  | type (whole : TypeExpr)
  | pattern (whole : Pattern)
  | path (whole : Path)

/-- The scanner makes one name of the text, and finds nothing else in it. -/
def ScannedAsName (name : String) : Prop :=
  ∀ file, Token.ofSource file name = .ok
    [⟨⟨.identifier, .text name⟩, Place.start.inFile file⟩,
      ⟨⟨.endOfInput, .none⟩, (Place.behind name.toList).inFile file⟩]

namespace Part

/-- The parts directly inside a part. -/
def children : Part → List Part
  | program whole => whole.structs.map struct
  | struct whole => whole.members.map member ++ whole.handlers.map handler
  | member whole => [type whole.type]
  | handler whole => whole.parameters.map parameter ++ [block whole.body]
  | parameter whole => whole.type.toList.map type
  | block whole => whole.statements.map statement
  | statement (.bind _ target value) => [pattern target, expression value]
  | statement (.assign _ target value) => [path target, expression value]
  | statement (.forEach _ target iterable body) =>
    [pattern target, expression iterable, block body]
  | statement (.loop _ condition body) => [expression condition, block body]
  | statement (.expression _ value) => [expression value]
  | expression (.tuple _ elements) | expression (.list _ elements) => elements.map expression
  | expression (.binary _ _ left right) => [expression left, expression right]
  | expression (.unary _ _ operand) => [expression operand]
  | expression (.property _ root _) => [expression root]
  | expression (.create _ created) => [type created]
  | expression (.message _ _ arguments) => arguments.map argument
  | expression (.send _ receiver message) => [expression receiver, expression message]
  | expression (.block body) => [block body]
  | expression (.conditional _ condition body alternatives otherwise) =>
    [expression condition, block body] ++ alternatives.map alternative ++
      otherwise.toList.map block
  | expression (.name ..) | expression (.string ..) | expression (.integer ..)
  | expression (.float ..) | expression (.boolean ..) | expression (.character ..) => []
  | argument (.mk _ _ value) => [expression value]
  | alternative (.mk _ condition body) => [expression condition, block body]
  | type (.named _ _ arguments) => arguments.map type
  | type (.list _ element) => [type element]
  | type (.tuple _ elements) => elements.map type
  | type (.variadic _ inner) => [type inner]
  | pattern (.list _ patterns) | pattern (.tuple _ patterns) => patterns.map pattern
  | pattern (.variadic _ inner) => inner.toList.map pattern
  | pattern (.name ..) | pattern (.ignored _) => []
  | path (.property _ inner _) => [path inner]
  | path (.name ..) => []

/-- A part is the whole, or inside it at some depth. -/
def Contains : Part → Part → Prop :=
  Relation.ReflTransGen fun whole part ↦ part ∈ whole.children

/-- What a part is asked for apart from what is inside it. -/
def IsProper : Part → Prop
  | struct whole => ScannedAsName whole.name ∧ (whole.members ≠ [] ∨ whole.handlers ≠ [])
  | member whole => ScannedAsName whole.name
  | handler whole => ScannedAsName whole.name
  | parameter whole => ScannedAsName whole.name
  | block whole => whole.statements ≠ []
  | expression (.tuple _ elements) => elements ≠ []
  | expression (.name _ name) | expression (.property _ _ name) => ScannedAsName name
  | expression (.message _ header _) => ScannedAsName header
  | expression (.integer _ value) => 0 ≤ value
  | expression (.float _ value) => value.isFinite = true ∧ value.isNegative = false
  | argument (.mk _ key _) => ScannedAsName key
  | type (.named _ name _) => ScannedAsName name
  | type (.tuple _ elements) => elements ≠ []
  | pattern (.name _ name) => ScannedAsName name
  | pattern (.list _ patterns) => (patterns.filter Pattern.isVariadic).length ≤ 1
  | pattern (.tuple _ patterns) =>
    patterns ≠ [] ∧ (patterns.filter Pattern.isVariadic).length ≤ 1
  | path (.name _ name) | path (.property _ _ name) => ScannedAsName name
  | _ => True

/-- The part and all that is inside it may be held by a source text. -/
def WellFormed : Part → Prop
  | program whole => whole.WellFormed
  | struct whole => whole.WellFormed
  | member whole => whole.WellFormed
  | handler whole => whole.WellFormed
  | parameter whole => whole.WellFormed
  | block whole => whole.Meets wellFormed
  | statement whole => whole.Meets wellFormed
  | expression whole => whole.Meets wellFormed
  | argument whole => whole.Meets wellFormed
  | alternative whole => whole.Meets wellFormed
  | type whole => whole.WellFormed
  | pattern whole => whole.WellFormed
  | path whole => whole.WellFormed

end Part

private theorem Named.scannedAsName {name : String} (h : Named name) : ScannedAsName name := by
  intro file
  have hspelling : (Terminal.mk .identifier (.text name)).spelling = name.toList := rfl
  have hread := (Terminal.Legible.identifier h).ofSource file
  rwa [hspelling, String.ofList_toList] at hread

namespace Part

private theorem forall_mem_pair {first second : Part}
    (h : first.WellFormed ∧ second.WellFormed) : ∀ part ∈ [first, second], part.WellFormed :=
  List.forall_mem_cons.2 ⟨h.1, List.forall_mem_singleton.2 h.2⟩

/-- What is directly inside a well-formed part is well-formed. -/
theorem WellFormed.children : {whole : Part} → whole.WellFormed →
    ∀ part ∈ whole.children, part.WellFormed
  | program _, h => List.forall_mem_map.2 h
  | struct _, ⟨_, _, hmembers, hhandlers⟩ =>
    List.forall_mem_append.2 ⟨List.forall_mem_map.2 hmembers, List.forall_mem_map.2 hhandlers⟩
  | member _, ⟨_, htype⟩ => List.forall_mem_singleton.2 htype
  | handler _, ⟨_, hparameters, hbody⟩ =>
    List.forall_mem_append.2 ⟨List.forall_mem_map.2 hparameters, List.forall_mem_singleton.2 hbody⟩
  | parameter _, ⟨_, htype⟩ =>
    List.forall_mem_map.2 fun type hmem ↦ htype type (Option.mem_toList.1 hmem)
  | block (.mk _ _), ⟨_, hstatements⟩ => List.forall_mem_map.2 (statementsMeet_iff.1 hstatements)
  | statement (.bind ..), h | statement (.assign ..), h | statement (.loop _ _ _), ⟨_, h⟩ =>
    forall_mem_pair h
  | statement (.forEach ..), ⟨hpattern, hiterable, hbody⟩ =>
    List.forall_mem_cons.2 ⟨hpattern, forall_mem_pair ⟨hiterable, hbody⟩⟩
  | statement (.expression ..), ⟨_, hvalue⟩ => List.forall_mem_singleton.2 hvalue
  | expression (.tuple ..), ⟨_, helements⟩ | expression (.list ..), ⟨_, helements⟩ =>
    List.forall_mem_map.2 (expressionsMeet_iff.1 helements)
  | expression (.binary ..), ⟨_, h⟩ | expression (.send ..), ⟨_, h⟩ => forall_mem_pair h
  | expression (.unary ..), ⟨_, h⟩ | expression (.property ..), ⟨_, h⟩
  | expression (.block _), ⟨_, h⟩ => List.forall_mem_singleton.2 h
  | expression (.create ..), htype => List.forall_mem_singleton.2 htype
  | expression (.message ..), ⟨_, harguments⟩ =>
    List.forall_mem_map.2 (argumentsMeet_iff.1 harguments)
  | expression (.conditional _ _ _ alternatives otherwise),
      ⟨_, hcondition, hbody, halternatives, hotherwise⟩ => by
    have hfurther : ∀ part ∈ alternatives.map alternative, part.WellFormed :=
      List.forall_mem_map.2 (elseIfsMeet_iff.1 halternatives)
    have hlast : ∀ last ∈ otherwise.toList, (block last).WellFormed := fun last hmem ↦
      otherwiseMeets_iff.1 hotherwise last (Option.mem_toList.1 hmem)
    exact List.forall_mem_append.2
      ⟨List.forall_mem_append.2 ⟨forall_mem_pair ⟨hcondition, hbody⟩, hfurther⟩,
        List.forall_mem_map.2 hlast⟩
  | expression (.name ..), _ | expression (.string ..), _ | expression (.integer ..), _
  | expression (.float ..), _ | expression (.boolean ..), _ | expression (.character ..), _ =>
    List.forall_mem_nil _
  | argument (.mk ..), ⟨_, hvalue⟩ => List.forall_mem_singleton.2 hvalue
  | alternative (.mk ..), h => forall_mem_pair h
  | type (.named ..), ⟨_, htypes⟩ | type (.tuple ..), ⟨_, htypes⟩ =>
    List.forall_mem_map.2 (typesWellFormed_iff.1 htypes)
  | type (.list ..), h | type (.variadic ..), h => List.forall_mem_singleton.2 h
  | pattern (.list ..), ⟨_, hpatterns⟩ | pattern (.tuple ..), ⟨_, _, hpatterns⟩ =>
    List.forall_mem_map.2 (patternsWellFormed_iff.1 hpatterns)
  | pattern (.variadic _ none), _ | pattern (.name ..), _ | pattern (.ignored _), _ =>
    List.forall_mem_nil _
  | pattern (.variadic _ (some _)), h => List.forall_mem_singleton.2 h
  | path (.property ..), ⟨hinner, _⟩ => List.forall_mem_singleton.2 hinner
  | path (.name ..), _ => List.forall_mem_nil _

/-- So is all that a well-formed part contains. -/
theorem WellFormed.of_contains {whole part : Part} (h : whole.WellFormed)
    (hcontains : whole.Contains part) : part.WellFormed := by
  induction hcontains with
  | refl => exact h
  | tail _ hmem ih => exact ih.children _ hmem

private theorem WellFormed.isProper : {part : Part} → part.WellFormed → part.IsProper
  | struct _, ⟨hname, hfilled, _⟩ => ⟨hname.scannedAsName, hfilled⟩
  | member _, ⟨hname, _⟩ | handler _, ⟨hname, _⟩ | parameter _, ⟨hname, _⟩ => hname.scannedAsName
  | block (.mk ..), ⟨hfilled, _⟩ => hfilled
  | expression (.tuple ..), ⟨hfilled, _⟩ => hfilled
  | expression (.name ..), hname | expression (.property ..), ⟨hname, _⟩
  | expression (.message ..), ⟨hname, _⟩ => Named.scannedAsName hname
  | expression (.integer ..), hsign => hsign
  | expression (.float ..), hvalue => hvalue
  | argument (.mk ..), ⟨hname, _⟩ => Named.scannedAsName hname
  | type (.named ..), ⟨hname, _⟩ => hname.scannedAsName
  | type (.tuple ..), ⟨hfilled, _⟩ => hfilled
  | pattern (.name ..), hname => Named.scannedAsName hname
  | pattern (.list ..), ⟨hone, _⟩ => hone
  | pattern (.tuple ..), ⟨hfilled, hone, _⟩ => ⟨hfilled, hone⟩
  | path (.name ..), hname | path (.property ..), ⟨_, hname⟩ => Named.scannedAsName hname
  | program _, _ | statement _, _ | alternative _, _ | type (.list ..), _ | type (.variadic ..), _
  | pattern (.ignored _), _ | pattern (.variadic ..), _ | expression (.list ..), _
  | expression (.binary ..), _ | expression (.unary ..), _ | expression (.create ..), _
  | expression (.send ..), _ | expression (.block _), _ | expression (.conditional ..), _
  | expression (.string ..), _ | expression (.boolean ..), _ | expression (.character ..), _ =>
    trivial

end Part

/-- Every part of a program that is read from a source text is proper, at whatever depth. -/
theorem Program.isProper_of_contains {file source : String} {memoize : Bool} {program : Program}
    (h : Program.ofSource file source memoize = .ok program) {part : Part}
    (hcontains : (Part.program program).Contains part) : part.IsProper := by
  have hprogram : (Part.program program).WellFormed := Program.wellFormed_of_ofSource h
  exact (hprogram.of_contains hcontains).isProper

-- The program is a single handler that takes the elements of something apart as lists.
private def Program.takesApart : Program → Bool
  | ⟨_, [⟨_, _, _, [⟨_, _, _, .mk _ [.forEach _ (.list ..) _ _]⟩]⟩]⟩ => true
  | _ => false

private theorem Program.contains_of_takesApart {program : Program}
    (h : program.takesApart = true) :
    ∃ location patterns, (Part.program program).Contains (.pattern (.list location patterns)) := by
  unfold takesApart at h
  split at h
  · have hlast {part : Part} {before : List Part} : part ∈ before ++ [part] :=
      List.mem_append_right _ (List.mem_singleton.2 rfl)
    exact ⟨_, _, .head (List.mem_singleton.2 rfl) (.head hlast (.head hlast
      (.head (List.mem_singleton.2 rfl) (.single List.mem_cons_self))))⟩
  · cases h

/-- The pattern of a loop takes the rest at most once. -/
theorem Program.isProper_of_contains_listPattern :
    ∃ program location patterns, Program.ofSource "f"
        "struct A:\n  b(c):\n    for [d, ..] in c:\n      d\n" true = .ok program ∧
      (Part.program program).Contains (.pattern (.list location patterns)) ∧
      (Part.pattern (.list location patterns)).IsProper := by
  obtain ⟨program, hread, hform⟩ :=
    exists_of_check "struct A:\n  b(c):\n    for [d, ..] in c:\n      d\n" Program.takesApart
      (by decide +kernel)
  obtain ⟨location, patterns, hcontains⟩ := contains_of_takesApart hform
  exact ⟨program, location, patterns, hread, hcontains,
    Program.isProper_of_contains hread hcontains⟩

end Offside
