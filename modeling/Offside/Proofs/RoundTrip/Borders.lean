import Offside.Proofs.RoundTrip.Places

/-!
# How expressions begin and end

The pieces of an expression begin with a token that may begin an expression of its rank
(`Expression.leads`). An expression that ends with an open type must not stand before an angle
bracket and the beginning of a type, because the bracket may open type arguments there: trees where
none does are clear (`clear`).
-/

namespace Offside

open Packrat Canonical

/-! ### The first token -/

/-- The pieces begin with a token of the kind, which may begin an expression of the rank. -/
structure Canonical.Leads (pieces : List Piece) (rank : Nat) (kind : TokenKind) : Prop where
  leading : leading? pieces = some kind
  begins : kind.beginsAt rank = true

section Leads

variable {pieces : List Piece} {rank tighter : Nat} {kind : TokenKind}

/-- What begins with a token of a tighter expression begins with one of a looser expression. -/
theorem Canonical.Leads.mono (h : Leads pieces tighter kind) (hle : rank ≤ tighter) :
    Leads pieces rank kind := ⟨h.leading, TokenKind.beginsAt_mono hle h.begins⟩

private theorem Canonical.Leads.append (h : Leads pieces rank kind) (more : List Piece) :
    Leads (pieces ++ more) rank kind := ⟨leading?_append h.leading more, h.begins⟩

/-- Parentheses begin an expression of every rank. -/
theorem Canonical.leads_parenthesized (pieces : List Piece) (rank : Nat) :
    Leads (parenthesized pieces) rank .leftParen := ⟨rfl, rfl⟩

end Leads

/-- What stands in a place that asks for a rank, between parentheses where it must. -/
theorem Expression.guarded_eq (expression : Expression) {rank : Nat} (hrank : rank ≤ 11)
    (needed : Bool) : parenthesizedIf needed (expression.pieces (rankInside needed rank)) =
      parenthesizedIf (needed || expression.rank < rank)
        (expression.pieces Precedence.loosest.rank) := by
  cases needed with
  | false => exact expression.pieces_eq hrank
  | true => rfl

/-- Without parentheses, an expression binds as tightly as its place asks for. -/
theorem Expression.le_rank {expression : Expression} {rank : Nat} {needed : Bool}
    (h : (needed || decide (expression.rank < rank)) = false) : rank ≤ expression.rank := by
  rw [Bool.or_eq_false_iff, decide_eq_false_iff_not] at h
  exact Nat.le_of_not_lt h.2

/-- The expression begins with a token that may begin one of its rank, and that is a minus sign only
if the expression is said to start with one. -/
def Expression.LeadsWith (expression : Expression) (kind : TokenKind) : Prop :=
  Leads (expression.pieces Precedence.loosest.rank) expression.rank kind ∧
    (kind = .minus → expression.startsWithMinus = true)

/-- What stands in a place begins with a token that may begin it. -/
theorem Expression.LeadsWith.inPlace {expression : Expression} {kind : TokenKind} {rank : Nat}
    (h : expression.LeadsWith kind) {parentheses : Bool}
    (hrank : parentheses = false → rank ≤ expression.rank) :
    ∃ kind, Leads (parenthesizedIf parentheses (expression.pieces Precedence.loosest.rank)) rank
      kind ∧ (kind = .minus → parentheses = false ∧ expression.startsWithMinus = true) := by
  cases parentheses with
  | false => exact ⟨kind, h.1.mono (hrank rfl), fun hminus ↦ ⟨rfl, h.2 hminus⟩⟩
  | true => exact ⟨.leftParen, leads_parenthesized _ rank, by rintro ⟨⟩⟩

private theorem BinaryOperator.precedence_le_leftRank (operator : BinaryOperator) :
    operator.level.precedence ≤ operator.leftRank := by
  cases operator <;> decide

/-- An expression begins with a token of a kind that depends on its form. -/
theorem Expression.leads : (expression : Expression) → ∃ kind, expression.LeadsWith kind
  | .name .. => ⟨.identifier, ⟨rfl, rfl⟩, by rintro ⟨⟩⟩
  | .string .. => ⟨.string, ⟨rfl, rfl⟩, by rintro ⟨⟩⟩
  | .integer .. => ⟨.integer, ⟨rfl, rfl⟩, by rintro ⟨⟩⟩
  | .float .. => ⟨.float, ⟨rfl, rfl⟩, by rintro ⟨⟩⟩
  | .boolean .. => ⟨.boolean, ⟨rfl, rfl⟩, by rintro ⟨⟩⟩
  | .character .. => ⟨.character, ⟨rfl, rfl⟩, by rintro ⟨⟩⟩
  | .tuple .. => ⟨.leftParen, ⟨rfl, rfl⟩, by rintro ⟨⟩⟩
  | .list .. => ⟨.leftBracket, ⟨rfl, rfl⟩, by rintro ⟨⟩⟩
  | .create .. => ⟨.kwNew, ⟨rfl, rfl⟩, by rintro ⟨⟩⟩
  | .message .. => ⟨.leftBrace, ⟨rfl, rfl⟩, by rintro ⟨⟩⟩
  | .block (.mk ..) => ⟨.kwDo, ⟨rfl, rfl⟩, by rintro ⟨⟩⟩
  | .conditional .. => ⟨.kwIf, ⟨rfl, rfl⟩, by rintro ⟨⟩⟩
  | .unary _ .negate _ => ⟨.minus, ⟨rfl, rfl⟩, fun _ ↦ rfl⟩
  | .unary _ .not _ => ⟨.exclamation, ⟨rfl, rfl⟩, by rintro ⟨⟩⟩
  | .binary _ operator left right => by
    obtain ⟨kind, hleads⟩ := left.leads
    obtain ⟨kind, hleads, hminus⟩ := hleads.inPlace Expression.le_rank
    refine ⟨kind, ?_, fun hkind ↦ (hminus hkind).2⟩
    rw [← left.guarded_eq (Nat.le_trans operator.leftRank_le (by decide))] at hleads
    unfold Expression.pieces
    rw [parenthesizedIf_loosest]
    exact ((hleads.mono operator.precedence_le_leftRank).append _).append _
  | .send _ receiver _ => by
    obtain ⟨kind, hleads⟩ := receiver.leads
    obtain ⟨kind, hleads, hminus⟩ := hleads.inPlace Expression.le_rank
    refine ⟨kind, ?_, fun hkind ↦ (hminus hkind).2⟩
    rw [← receiver.guarded_eq (show Precedence.application.rank ≤ 11 by decide)] at hleads
    unfold Expression.pieces
    rw [parenthesizedIf_loosest]
    exact hleads.append _
  | .property _ root value => by
    obtain ⟨kind, hleads⟩ := root.leads
    obtain ⟨kind, hleads, -⟩ := hleads.inPlace Expression.le_rank
    refine ⟨kind, ?_, fun hkind ↦ ?_⟩
    · rw [← root.guarded_eq (show Precedence.property.rank ≤ 11 by decide)] at hleads
      unfold Expression.pieces
      rw [parenthesizedIf_loosest]
      exact (hleads.append _).append _
    · -- A sign does not begin the root of a property.
      have hbegins := hleads.begins
      rw [hkind] at hbegins
      cases hbegins

/-! ### Paths at the beginning -/

/-- Pieces go on with neither a period nor an assignment. -/
def Canonical.LeavesPath (pieces : List Piece) : Prop :=
  pieces = [] ∨ ∃ kind rest, pieces = .space :: rest ∧ leading? rest = some kind ∧ kind ≠ .period ∧
    kind ≠ .assign

private theorem Canonical.LeavesPath.append {pieces rest : List Piece} {kind : TokenKind}
    (h : LeavesPath pieces) (hleading : leading? rest = some kind) (hperiod : kind ≠ .period)
    (hassign : kind ≠ .assign) : LeavesPath (pieces ++ .space :: rest) := by
  obtain rfl | ⟨first, behind, rfl, hfirst, hkinds⟩ := h
  · exact .inr ⟨kind, rest, rfl, hleading, hperiod, hassign⟩
  · exact .inr ⟨first, _, rfl, leading?_append hfirst _, hkinds⟩

namespace Expression

private theorem leading_of_append {expression : Expression} {parentheses : Bool}
    {more : List Piece}
    (h : leading?
        (parenthesizedIf parentheses (expression.pieces Precedence.loosest.rank) ++ more) =
      some .identifier) :
    parentheses = false ∧
      leading? (expression.pieces Precedence.loosest.rank) = some .identifier := by
  cases parentheses with
  | true => cases h
  | false =>
    obtain ⟨kind, hleads, -⟩ := expression.leads
    refine ⟨rfl, hleads.leading.trans ?_⟩
    exact (leading?_append hleads.leading more).symm.trans h

private theorem exists_path :
    (expression : Expression) → Precedence.property.rank ≤ expression.rank →
    leading? (expression.pieces Precedence.loosest.rank) = some .identifier →
    ∃ path : Path, path.pieces = expression.pieces Precedence.loosest.rank
  | .name location value, _, _ => ⟨.name location value, rfl⟩
  | .property location root value, _, h => by
    unfold Expression.pieces at h ⊢
    rw [parenthesizedIf_loosest, root.guarded_eq (by decide)] at h ⊢
    rw [List.append_assoc] at h
    obtain ⟨hbare, hroot⟩ := leading_of_append h
    obtain ⟨path, hpath⟩ := root.exists_path (le_rank hbare) hroot
    refine ⟨.property location path value, ?_⟩
    rw [Path.pieces, hpath, hbare]
    rfl

/-- An expression that begins with a name begins with a path, and goes on with neither a period nor
an assignment. -/
theorem begins_path : (expression : Expression) →
    leading? (expression.pieces Precedence.loosest.rank) = some .identifier →
    ∃ (path : Path) (more : List Piece),
      expression.pieces Precedence.loosest.rank = path.pieces ++ more ∧ LeavesPath more
  | .name location value, h => ⟨.name location value, [], rfl, .inl rfl⟩
  | .property location root value, h => by
    obtain ⟨path, hpath⟩ := exists_path (.property location root value) (Nat.le_refl _) h
    exact ⟨path, [], by rw [hpath, List.append_nil], .inl rfl⟩
  | .binary _ operator left right, h => by
    unfold Expression.pieces at h ⊢
    rw [parenthesizedIf_loosest, left.guarded_eq (Nat.le_trans operator.leftRank_le (by decide)),
      List.append_assoc] at h ⊢
    obtain ⟨hbare, hleft⟩ := leading_of_append h
    obtain ⟨path, more, hpath, hmore⟩ := left.begins_path hleft
    have hsign : leading? (symbolSpace operator.token ++
        right.pieces (operator.level.precedence + 1)) = some operator.token := rfl
    refine ⟨path, _, ?_, hmore.append hsign ?_ ?_⟩
    · rw [hbare, ← List.append_assoc path.pieces, ← hpath]
      rfl
    · cases operator <;> decide
    · cases operator <;> decide
  | .send _ receiver sent, h => by
    unfold Expression.pieces at h ⊢
    rw [parenthesizedIf_loosest,
      receiver.guarded_eq (show Precedence.application.rank ≤ 11 by decide),
      sent.guarded_eq (show Precedence.application.rank + 1 ≤ 11 by decide)] at h ⊢
    obtain ⟨hbare, hreceiver⟩ := leading_of_append h
    obtain ⟨path, more, hpath, hmore⟩ := receiver.begins_path hreceiver
    obtain ⟨kind, hleads⟩ := sent.leads
    obtain ⟨kind, hsent, -⟩ : ∃ kind, Leads (parenthesizedIf (sent.startsWithMinus ||
        decide (sent.rank < Precedence.application.rank + 1)) _) _ kind ∧ _ :=
      hleads.inPlace le_rank
    have hbegins := hsent.begins
    refine ⟨path, _, ?_, hmore.append hsent.leading ?_ ?_⟩
    · rw [hbare, ← List.append_assoc path.pieces, ← hpath]
      rfl
    · rintro rfl
      cases hbegins
    · rintro rfl
      cases hbegins

end Expression

/-! ### The last token -/

namespace Expression

/-- The expression ends with an open type. -/
def endsOpen : Expression → Bool
  | create _ type => type.isOpen
  | binary _ operator _ right => operator.level.precedence < right.rank && right.endsOpen
  | unary _ _ operand => Precedence.property.rank ≤ operand.rank && operand.endsOpen
  | send _ _ sent =>
    !sent.startsWithMinus && (Precedence.application.rank < sent.rank && sent.endsOpen)
  | _ => false

/-- A type ends no block. -/
theorem endsWithBlock_of_endsOpen : (expression : Expression) → expression.endsOpen = true →
    expression.endsWithBlock = false
  | create .., _ => rfl
  | binary _ _ _ right, h => right.endsWithBlock_of_endsOpen (Bool.and_eq_true_iff.1 h).2
  | unary _ _ operand, h => operand.endsWithBlock_of_endsOpen (Bool.and_eq_true_iff.1 h).2
  | send _ _ sent, h => sent.endsWithBlock_of_endsOpen
      (Bool.and_eq_true_iff.1 (Bool.and_eq_true_iff.1 h).2).2

/-- An open type stands before the sign of a comparison whose right operand begins as a type may. -/
def clashes : Expression → Bool
  | binary _ .less left right =>
    BinaryOperator.less.leftRank ≤ left.rank && left.endsOpen &&
      (leading? (right.pieces (BinaryOperator.less.level.precedence + 1))).any
        (Grammar.begins .typeExpression)
  | _ => false

end Expression

/-- No open type stands before an angle bracket and the beginning of a type. -/
def unclashing : Demands where
  expression expression := expression.clashes = false
  block _ := True
  statement _ := True
  argument _ := True

/-- What every expression and every statement has that is read from a source text, and in whose
canonical source no open type stands before an angle bracket and the beginning of a type. -/
def clear : Demands := wellFormed.and unclashing

/-- No object is created. -/
def creationless : Demands where
  expression
    | .create .. => False
    | _ => True
  block _ := True
  statement _ := True
  argument _ := True

/-- Where no object is created, no expression ends with a type. -/
theorem proof_creationless : creationless.Proof
    (fun expression ↦ expression.Meets unclashing ∧ expression.endsOpen = false)
    (·.Meets unclashing) (·.Meets unclashing) where
  name _ _ _ := ⟨rfl, rfl⟩
  string _ _ _ := ⟨rfl, rfl⟩
  integer _ _ _ := ⟨rfl, rfl⟩
  float _ _ _ := ⟨rfl, rfl⟩
  boolean _ _ _ := ⟨rfl, rfl⟩
  character _ _ _ := ⟨rfl, rfl⟩
  create _ _ h := h.elim
  tuple _ _ _ ih := ⟨⟨rfl, expressionsMeet_iff.2 fun element hmem ↦ (ih element hmem).1⟩, rfl⟩
  list _ _ _ ih := ⟨⟨rfl, expressionsMeet_iff.2 fun element hmem ↦ (ih element hmem).1⟩, rfl⟩
  binary _ operator left right _ hleft hright := by
    refine ⟨⟨?_, hleft.1, hright.1⟩, ?_⟩
    · change Expression.clashes (.binary _ operator left right) = false
      unfold Expression.clashes
      split <;> simp_all
    · simp [Expression.endsOpen, hright.2]
  unary _ _ _ _ ih := ⟨⟨rfl, ih.1⟩, by simp [Expression.endsOpen, ih.2]⟩
  property _ _ _ _ ih := ⟨⟨rfl, ih.1⟩, rfl⟩
  message _ _ _ _ ih := ⟨⟨rfl, argumentsMeet_iff.2 fun
    | .mk location key value, hmem => ⟨trivial, (ih location key value hmem).2.1⟩⟩, rfl⟩
  send _ _ _ _ hreceiver hmessage :=
    ⟨⟨rfl, hreceiver.1, hmessage.1⟩, by simp [Expression.endsOpen, hmessage.2]⟩
  block _ _ ih := ⟨⟨rfl, ih⟩, rfl⟩
  conditional _ _ _ _ otherwise _ hcondition hbody halternatives hotherwise := by
    refine ⟨⟨rfl, hcondition.1, hbody, elseIfsMeet_iff.2 ?_, ?_⟩, rfl⟩
    · rintro ⟨location, test, further⟩ hmem
      obtain ⟨htest, hfurther⟩ := halternatives location test further hmem
      exact ⟨htest.1, hfurther⟩
    · cases otherwise with
      | none => trivial
      | some last => exact hotherwise last rfl
  statements _ _ _ ih := ⟨trivial, statementsMeet_iff.2 ih⟩
  bind _ _ _ _ ih := ⟨trivial, ih.1⟩
  assign _ _ _ _ ih := ⟨trivial, ih.1⟩
  forEach _ _ _ _ _ hiterable hbody := ⟨trivial, hiterable.1, hbody⟩
  loop _ _ _ _ hcondition hbody := ⟨trivial, hcondition.1, hbody⟩
  expression _ _ _ ih := ⟨trivial, ih.1⟩

end Offside
