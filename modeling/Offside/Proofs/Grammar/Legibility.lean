import Offside.Proofs.Grammar.Soundness
import Offside.Proofs.Source.Legible
import Offside.Proofs.Tree.WellFormed

/-!
# Trees of source texts are well-formed

What the grammar derives from tokens that the scanner writes is well-formed: names and numbers are
those of legible terminals, and the rest is a matter of the productions. So is every program that is
read from a source text (`Program.wellFormed_of_ofSource`).
-/

namespace Offside

open Packrat

namespace Derivation

/-- The scanner writes each of the tokens. -/
abbrev AllScanned (tokens : List Token) : Prop := ∀ token ∈ tokens, token.Scanned

section Tokens

variable {token : Token} {first second : List Token}

private theorem AllScanned.head (h : AllScanned (token :: second)) : token.Scanned :=
  h token List.mem_cons_self

private theorem AllScanned.tail (h : AllScanned (token :: second)) : AllScanned second :=
  fun other hother ↦ h other (List.mem_cons_of_mem _ hother)

private theorem AllScanned.left (h : AllScanned (first ++ second)) : AllScanned first :=
  fun other hother ↦ h other (List.mem_append_left _ hother)

private theorem AllScanned.right (h : AllScanned (first ++ second)) : AllScanned second :=
  fun other hother ↦ h other (List.mem_append_right _ hother)

private theorem legible_of_kind {kind : TokenKind} (h : token.Scanned) (hkind : token.kind = kind)
    (hne : kind ≠ .endOfLine) : (Terminal.mk kind token.payload).Legible := by
  obtain hlegible | hline := h.legible
  · exact hkind ▸ hlegible
  · exact absurd (hkind.symm.trans hline) hne

private theorem named_of_isName {name : String} (h : IsName token name) (hscanned : token.Scanned) :
    Named name := by
  have hlegible := legible_of_kind hscanned h.kind (by decide)
  rw [h.payload] at hlegible
  cases hlegible with
  | identifier hname => exact hname

private theorem nonneg_of_integer {value : Int} (h : token.Scanned) (hkind : token.kind = .integer)
    (hpayload : token.payload = .integer value) : 0 ≤ value := by
  have hlegible := legible_of_kind h hkind (by decide)
  rw [hpayload] at hlegible
  cases hlegible with
  | integer value => exact Int.natCast_nonneg value

private theorem finite_of_float {value : Binary64} (h : token.Scanned) (hkind : token.kind = .float)
    (hpayload : token.payload = .float value) :
    value.isFinite = true ∧ value.isNegative = false := by
  have hlegible := legible_of_kind h hkind (by decide)
  rw [hpayload] at hlegible
  cases hlegible with
  | float hfinite hnonnegative => exact ⟨hfinite, hnonnegative⟩

end Tokens

/-! ### Types, patterns and paths -/

mutual

/-- A type that scanned tokens spell is well-formed. -/
theorem IsType.wellFormed {tokens : List Token} {type : TypeExpr} :
    IsType tokens type → AllScanned tokens → type.WellFormed
  | .plain hname, hscanned => ⟨named_of_isName hname hscanned.head, trivial⟩
  | .generic hname _ harguments _, hscanned =>
    ⟨named_of_isName hname hscanned.head, wellFormed_types harguments hscanned.tail.tail.left⟩
  | .list _ helement _, hscanned => helement.wellFormed hscanned.tail.left
  | .tuple _ hfirst _ .none _, hscanned =>
    ⟨List.cons_ne_nil _ _, hfirst.wellFormed hscanned.tail.left, trivial⟩
  | .tuple _ hfirst _ (.some hrest) _, hscanned =>
    ⟨List.cons_ne_nil _ _, hfirst.wellFormed hscanned.tail.left,
      wellFormed_types hrest hscanned.tail.right.tail.left⟩
  | .variadic _ hinner, hscanned => hinner.wellFormed hscanned.tail

private theorem wellFormed_types {tokens : List Token} {types : List TypeExpr} :
    Commas IsType tokens types → AllScanned tokens → typesWellFormed types
  | .one htype, hscanned => ⟨htype.wellFormed hscanned, trivial⟩
  | .cons htype _ hrest, hscanned =>
    ⟨htype.wellFormed hscanned.left, wellFormed_types hrest hscanned.right.tail⟩

end

mutual

/-- A pattern that scanned tokens spell is well-formed. -/
theorem IsPattern.wellFormed {tokens : List Token} {pattern : Pattern} :
    IsPattern tokens pattern → AllScanned tokens → pattern.WellFormed
  | .name hname, hscanned => named_of_isName hname hscanned.head
  | .ignored _, _ => trivial
  | .list _ .none _ hone, _ => ⟨hone, trivial⟩
  | .list _ (.some hpatterns) _ hone, hscanned =>
    ⟨hone, wellFormed_patterns hpatterns hscanned.tail.left⟩
  | .tuple _ hfirst _ .none _ hone, hscanned =>
    ⟨List.cons_ne_nil _ _, hone, hfirst.wellFormed hscanned.tail.left, trivial⟩
  | .tuple _ hfirst _ (.some hrest) _ hone, hscanned =>
    ⟨List.cons_ne_nil _ _, hone, hfirst.wellFormed hscanned.tail.left,
      wellFormed_patterns hrest hscanned.tail.right.tail.left⟩
  | .variadic _, _ => trivial
  | .variadicInner _ hinner, hscanned => hinner.wellFormed hscanned.tail

private theorem wellFormed_patterns {tokens : List Token} {patterns : List Pattern} :
    Commas IsPattern tokens patterns → AllScanned tokens → patternsWellFormed patterns
  | .one hpattern, hscanned => ⟨hpattern.wellFormed hscanned, trivial⟩
  | .cons hpattern _ hrest, hscanned =>
    ⟨hpattern.wellFormed hscanned.left, wellFormed_patterns hrest hscanned.right.tail⟩

end

/-- A path that scanned tokens spell is well-formed. -/
theorem IsPath.wellFormed {tokens : List Token} {path : Path} :
    IsPath tokens path → AllScanned tokens → path.WellFormed
  | .name hname, hscanned => named_of_isName hname hscanned.head
  | .property hinner _ hname, hscanned =>
    ⟨hinner.wellFormed hscanned.left, named_of_isName hname hscanned.right.tail.head⟩

/-! ### Expressions and statements -/

mutual

/-- An expression that scanned tokens spell is well-formed, and so is all that it holds. -/
theorem IsExpression.wellFormed {place : Place} {tokens : List Token} {value : Expression} :
    IsExpression place tokens value → AllScanned tokens → value.Meets wellFormed
  | .conditional h, hscanned | .application h, hscanned | .receiver h, hscanned
  | .operand h, hscanned | .unsigned h, hscanned | .atom h, hscanned => h.wellFormed hscanned
  | .branches _ hcondition hbody halternatives hotherwise, hscanned =>
    ⟨trivial, hcondition.wellFormed hscanned.tail.left, hbody.wellFormed hscanned.tail.right.left,
      wellFormed_elseIfs halternatives hscanned.tail.right.right.left,
      hotherwise.wellFormed hscanned.tail.right.right.right⟩
  | .send hreceiver _ hmessage, hscanned =>
    ⟨trivial, hreceiver.wellFormed hscanned.left, hmessage.wellFormed hscanned.right⟩
  | .chained _ _ hleft _ _ hright, hscanned | .single _ _ hleft _ _ hright, hscanned =>
    ⟨trivial, hleft.wellFormed hscanned.left, hright.wellFormed hscanned.right.tail⟩
  | .signed _ hoperand, hscanned => ⟨trivial, hoperand.wellFormed hscanned.tail⟩
  | .property hroot _ _ hname, hscanned =>
    ⟨named_of_isName hname hscanned.right.tail.head, hroot.wellFormed hscanned.left⟩
  | .block _ hbody, hscanned => ⟨trivial, (hbody.wellFormed hscanned.tail :)⟩
  | .create _ htype, hscanned => htype.wellFormed hscanned.tail
  | .message _ hname .none _, hscanned =>
    ⟨named_of_isName hname hscanned.tail.head, trivial⟩
  | .message _ hname (.some harguments) _, hscanned =>
    ⟨named_of_isName hname hscanned.tail.head,
      wellFormed_arguments harguments hscanned.tail.tail.left⟩
  | .tuple _ hfirst _ .none _, hscanned =>
    ⟨List.cons_ne_nil _ _, hfirst.wellFormed hscanned.tail.left, trivial⟩
  | .tuple _ hfirst _ (.some hrest) _, hscanned =>
    ⟨List.cons_ne_nil _ _, hfirst.wellFormed hscanned.tail.left,
      wellFormed_expressions hrest hscanned.tail.right.tail.left⟩
  | .list _ .none _, _ => ⟨trivial, trivial⟩
  | .list _ (.some helements) _, hscanned =>
    ⟨trivial, wellFormed_expressions helements hscanned.tail.left⟩
  | .name hname, hscanned => named_of_isName hname hscanned.head
  | .string _ _, _ | .boolean _ _, _ | .character _ _, _ => trivial
  | .integer hkind hpayload, hscanned => nonneg_of_integer hscanned.head hkind hpayload
  | .float hkind hpayload, hscanned => finite_of_float hscanned.head hkind hpayload
  | .grouped _ h _, hscanned => h.wellFormed hscanned.tail.left

private theorem wellFormed_expressions {tokens : List Token} {expressions : List Expression} :
    Commas (IsExpression .expression) tokens expressions → AllScanned tokens →
      expressionsMeet wellFormed expressions
  | .one h, hscanned => ⟨h.wellFormed hscanned, trivial⟩
  | .cons h _ hrest, hscanned =>
    ⟨h.wellFormed hscanned.left, wellFormed_expressions hrest hscanned.right.tail⟩

private theorem IsBody.wellFormed {tokens : List Token} {body : Block} :
    IsBody tokens body → AllScanned tokens → body.Meets wellFormed
  | .mk _ _ (.mk _ hlines hne), hscanned =>
    ⟨hne, wellFormed_statements hlines hscanned.tail.tail.right⟩

private theorem wellFormed_statements {tokens : List Token} {statements : List Statement} :
    Lines IsStatement tokens statements → AllScanned tokens → statementsMeet wellFormed statements
  | .nil, _ => trivial
  | .cons h _ hrest, hscanned =>
    ⟨h.wellFormed hscanned.left, wellFormed_statements hrest hscanned.right.right⟩

private theorem IsElseIf.wellFormed {tokens : List Token} {alternative : ElseIf} :
    IsElseIf tokens alternative → AllScanned tokens → alternative.Meets wellFormed
  | .mk _ _ hcondition hbody, hscanned =>
    ⟨hcondition.wellFormed hscanned.tail.tail.left, hbody.wellFormed hscanned.tail.tail.right⟩

private theorem wellFormed_elseIfs {tokens : List Token} {alternatives : List ElseIf} :
    Many IsElseIf tokens alternatives → AllScanned tokens → elseIfsMeet wellFormed alternatives
  | .nil, _ => trivial
  | .cons h hrest, hscanned =>
    ⟨h.wellFormed hscanned.left, wellFormed_elseIfs hrest hscanned.right⟩

private theorem IsElse.wellFormed {tokens : List Token} {otherwise : Option Block} :
    IsElse tokens otherwise → AllScanned tokens → otherwiseMeets wellFormed otherwise
  | .none, _ => trivial
  | .some _ hbody, hscanned => (hbody.wellFormed hscanned.tail :)

private theorem IsArgument.wellFormed {tokens : List Token} {argument : Argument} :
    IsArgument tokens argument → AllScanned tokens → argument.Meets wellFormed
  | .mk hname _ hvalue, hscanned =>
    ⟨named_of_isName hname hscanned.head, hvalue.wellFormed hscanned.tail.tail⟩

private theorem wellFormed_arguments {tokens : List Token} {arguments : List Argument} :
    Commas IsArgument tokens arguments → AllScanned tokens → argumentsMeet wellFormed arguments
  | .one h, hscanned => ⟨h.wellFormed hscanned, trivial⟩
  | .cons h _ hrest, hscanned =>
    ⟨h.wellFormed hscanned.left, wellFormed_arguments hrest hscanned.right.tail⟩

/-- A statement that scanned tokens spell is well-formed, and so is all that it holds. -/
theorem IsStatement.wellFormed {tokens : List Token} {statement : Statement} :
    IsStatement tokens statement → AllScanned tokens → statement.Meets wellFormed
  | .bind _ hpattern _ hvalue _, hscanned =>
    ⟨hpattern.wellFormed hscanned.left.tail.left, hvalue.wellFormed hscanned.left.tail.right.tail⟩
  | .assign hpath _ hvalue _, hscanned =>
    ⟨hpath.wellFormed hscanned.left.left, hvalue.wellFormed hscanned.left.right.tail⟩
  | .forEach _ hpattern _ hiterable hbody, hscanned =>
    ⟨hpattern.wellFormed hscanned.tail.left, hiterable.wellFormed hscanned.tail.right.tail.left,
      hbody.wellFormed hscanned.tail.right.tail.right⟩
  | .loop _ hcondition hbody, hscanned =>
    ⟨trivial, hcondition.wellFormed hscanned.tail.left, hbody.wellFormed hscanned.tail.right⟩
  | .expression h _, hscanned => ⟨trivial, h.wellFormed hscanned.left⟩

end

/-! ### Declarations -/

private theorem IsParameter.wellFormed {tokens : List Token} {parameter : Parameter} :
    IsParameter tokens parameter → AllScanned tokens → parameter.WellFormed
  | .plain hname, hscanned => ⟨named_of_isName hname hscanned.head, nofun⟩
  | .typed hname _ htype, hscanned =>
    ⟨named_of_isName hname hscanned.head, fun _ hmem ↦
      Option.some.inj hmem ▸ htype.wellFormed hscanned.tail.tail⟩

private theorem wellFormed_parameters {tokens : List Token} {parameters : List Parameter} :
    Commas IsParameter tokens parameters → AllScanned tokens →
      ∀ parameter ∈ parameters, parameter.WellFormed
  | .one h, hscanned => List.forall_mem_singleton.2 (h.wellFormed hscanned)
  | .cons h _ hrest, hscanned =>
    List.forall_mem_cons.2
      ⟨h.wellFormed hscanned.left, wellFormed_parameters hrest hscanned.right.tail⟩

private theorem IsMember.wellFormed {tokens : List Token} {member : Member} :
    IsMember tokens member → AllScanned tokens → member.WellFormed
  | .mk hname _ htype _, hscanned =>
    ⟨named_of_isName hname hscanned.head, htype.wellFormed hscanned.tail.tail.left⟩

private theorem IsHandler.wellFormed {tokens : List Token} {handler : Handler} :
    IsHandler tokens handler → AllScanned tokens → handler.WellFormed
  | .mk hname _ hparameters _ hbody, hscanned => by
    refine ⟨named_of_isName hname hscanned.head, ?_, hbody.wellFormed hscanned.tail.tail.right.tail⟩
    cases hparameters with
    | none => exact nofun
    | some hparameters => exact wellFormed_parameters hparameters hscanned.tail.tail.left

private theorem IsItem.wellFormed {tokens : List Token} {item : StructItem} :
    IsItem tokens item → AllScanned tokens → item.WellFormed
  | .member h, hscanned => h.wellFormed hscanned
  | .handler h, hscanned => h.wellFormed hscanned

private theorem wellFormed_lines {α : Type} {Item : List Token → α → Prop} {Good : α → Prop}
    (hitem : ∀ tokens item, Item tokens item → AllScanned tokens → Good item)
    {tokens : List Token} {items : List α} :
    Lines Item tokens items → AllScanned tokens → ∀ item ∈ items, Good item
  | .nil, _ => nofun
  | .cons h _ hrest, hscanned =>
    List.forall_mem_cons.2
      ⟨hitem _ _ h hscanned.left, wellFormed_lines hitem hrest hscanned.right.right⟩

private theorem Merges.wellFormed {items : List StructItem} {members : List Member}
    {handlers : List Handler} (h : Merges items members handlers)
    (hitems : ∀ item ∈ items, item.WellFormed) :
    (∀ member ∈ members, member.WellFormed) ∧ ∀ handler ∈ handlers, handler.WellFormed := by
  induction h with
  | nil => exact ⟨nofun, nofun⟩
  | member _ ih =>
    rw [List.forall_mem_cons] at hitems
    exact ⟨List.forall_mem_cons.2 ⟨hitems.1, (ih hitems.2).1⟩, (ih hitems.2).2⟩
  | handler _ ih =>
    rw [List.forall_mem_cons] at hitems
    exact ⟨(ih hitems.2).1, List.forall_mem_cons.2 ⟨hitems.1, (ih hitems.2).2⟩⟩

private theorem Merges.nonempty {items : List StructItem} {members : List Member}
    {handlers : List Handler} (h : Merges items members handlers) (hne : items ≠ []) :
    members ≠ [] ∨ handlers ≠ [] := by
  cases h with
  | nil => exact absurd rfl hne
  | member => exact .inl (List.cons_ne_nil _ _)
  | handler => exact .inr (List.cons_ne_nil _ _)

private theorem IsStruct.wellFormed {tokens : List Token} {struct : Struct} :
    IsStruct tokens struct → AllScanned tokens → struct.WellFormed
  | .mk _ hname _ _ _ (.mk _ hlines hne) hmerges, hscanned => by
    have hitem (row : List Token) (item : StructItem) (h : IsItem row item)
      (hrow : AllScanned row) :
        item.WellFormed := h.wellFormed hrow
    exact ⟨named_of_isName hname hscanned.tail.head, hmerges.nonempty hne,
      hmerges.wellFormed (wellFormed_lines hitem hlines hscanned.tail.tail.tail.right.right)⟩

/-- All tokens of a program but the last matter. -/
theorem IsProgram.wellFormed {tokens : List Token} {program : Program} :
    IsProgram tokens program → AllScanned tokens.dropLast → program.WellFormed
  | .mk _ hstructs _ _, hscanned => by
    rw [← List.append_assoc, List.dropLast_concat] at hscanned
    have hitem (row : List Token) (struct : Struct) (h : IsStruct row struct)
        (hrow : AllScanned row) : struct.WellFormed := h.wellFormed hrow
    exact wellFormed_lines hitem hstructs hscanned.right

end Derivation

open Offside.Derivation

/-- What a rule other than that of programs reads of a source text is derived from tokens that the
scanner writes, at whatever position and whatever a session has read before. -/
theorem Grammar.exists_allScanned_of_parse {file source : String} {tokens : List Token}
    (htokens : Token.ofSource file source = .ok tokens) {memoize : Bool}
    {actions : List Session.Action} {s s' : State}
    (hreached : s ∈ Session.reached ⟨tokens.toArray, memoize⟩ actions) (blocks : List Nat) {p : Nat}
    {rule : Rule} (hrule : rule ≠ .program) {found : rule.Result}
    (h : parse (.rule rule) ⟨tokens.toArray, memoize⟩ ⟨p, blocks, s.table⟩ = .ok (.ok found, s')) :
    ∃ row, Derives rule row found ∧ AllScanned row := by
  have hreads := Grammar.reads_of_parse htokens hreached blocks h
  have hlt := hreads.moves.lt hrule
  have hsize := hreads.moves.within.2
  have hformed := hreads.formed hrule (by omega)
  refine ⟨_, hformed.derives, fun token hmem ↦ ?_⟩
  obtain ⟨front, last, rfl, hfront, hlast, -⟩ := Token.scanned_of_scan htokens
  have hinside : token ∈ front ++ [last] := by
    simpa using List.mem_of_mem_drop (List.mem_of_mem_take hmem)
  -- The last token of the source text ends the input, and no rule but that of programs reads it.
  refine hfront token ((List.mem_append.1 hinside).resolve_right fun hend ↦ ?_)
  rw [List.mem_singleton] at hend
  exact hformed.endFree token hmem (hend ▸ hlast)

/-- A program that is read from a source text is well-formed. -/
theorem Program.wellFormed_of_ofSource {file source : String} {memoize : Bool} {program : Program}
    (h : Program.ofSource file source memoize = .ok program) : program.WellFormed := by
  obtain ⟨tokens, s', htokens, hparse⟩ := Program.ofSource_eq_ok.1 h
  obtain ⟨row, last, rfl, hrow, -, -⟩ := Token.scanned_of_scan htokens
  have hreached : State.start ∈ Session.reached ⟨(row ++ [last]).toArray, memoize⟩ [] := .head _
  have hderives := (Grammar.reads_of_parse htokens hreached [] hparse).derives_extract (by simp)
  refine IsProgram.wellFormed hderives fun token hmem ↦ hrow token ?_
  have hfront : (row ++ [last]).extract 0 s'.position <+: row ++ [last] := by
    simpa [List.extract_eq_take_drop] using List.take_prefix _ _
  have hinside : ((row ++ [last]).extract 0 s'.position).dropLast <+: row := by
    refine List.prefix_of_prefix_length_le ((List.dropLast_prefix _).trans hfront)
      (List.prefix_append row [last]) ?_
    have hlength := hfront.length_le
    simp only [List.length_dropLast, List.length_append, List.length_singleton] at hlength ⊢
    omega
  exact hinside.mem hmem

end Offside
