import Offside.Proofs.Canonical.Trimming
import Offside.Proofs.Grammar.Legibility
import Offside.Proofs.RoundTrip.Leaves

/-!
# Reading canonical types, patterns and paths on their own

The canonical source of a type, a pattern or a path that was read from a source text is read by the
same rule as the same tree up to locations, and all of it is read (`Leaf.ofSource_text_of_parse`).
-/

namespace Offside

open Packrat Canonical Edge Offside.Derivation Grammar

/-- The kinds of trees that statements and declarations hold beside expressions. -/
inductive Leaf where
  | type
  | pattern
  | path
  deriving DecidableEq

namespace Leaf

/-- The rule that reads the trees. -/
def rule : Leaf → Rule
  | type => .typeExpression
  | pattern => .pattern
  | path => .path

/-- The canonical source of a tree. -/
def text : (leaf : Leaf) → leaf.rule.Result → String
  | type => TypeExpr.text
  | pattern => Pattern.text
  | path => Path.text

/-- A tree without its locations. -/
def erase : (leaf : Leaf) → leaf.rule.Result → leaf.rule.Result
  | type => TypeExpr.erase
  | pattern => Pattern.erase
  | path => Path.erase

/-- The pieces of a tree. -/
def pieces : (leaf : Leaf) → leaf.rule.Result → List Piece
  | type => TypeExpr.pieces
  | pattern => Pattern.pieces
  | path => Path.pieces

/-- A tree that a source text may hold. -/
def WellFormed : (leaf : Leaf) → leaf.rule.Result → Prop
  | type => TypeExpr.WellFormed
  | pattern => Pattern.WellFormed
  | path => Path.WellFormed

variable {leaf : Leaf} {tree : leaf.rule.Result}

private theorem text_eq (leaf : Leaf) (tree : leaf.rule.Result) :
    leaf.text tree = String.ofList (renderTrimmed (leaf.pieces tree)) := by
  cases leaf <;> rfl

private theorem wellFormed_of_derives {tokens : List Token} (h : Derives leaf.rule tokens tree)
    (hscanned : AllScanned tokens) : leaf.WellFormed tree := by
  cases leaf with
  | type => exact IsType.wellFormed h hscanned
  | pattern => exact IsPattern.wellFormed h hscanned
  | path => exact IsPath.wellFormed h hscanned

private theorem WellFormed.lays (h : leaf.WellFormed tree) :
    Lays Opens Shut (leaf.pieces tree) := by
  cases leaf with
  | type => exact TypeExpr.WellFormed.lays h
  | pattern => exact Pattern.WellFormed.lays h
  | path => exact Path.WellFormed.lays h

/-- At the end of the input, the tree is read where it is written. -/
theorem WellFormed.yields {tokens : Array Token} {spot : Spot} {view next : View}
    (h : leaf.WellFormed tree) (hwrites : Writes spot (leaf.pieces tree) view next)
    (hend : next.ahead = .endOfInput) (indent : Nat) :
    (reader tokens (.rule leaf.rule)).Yields tokens indent view next
      (leaf.erase · = leaf.erase tree) := by
  cases leaf with
  | type => exact rereads_type h hwrites fun _ ↦ View.not_opensArguments (by rw [hend]; decide)
  | pattern => exact rereads_pattern h hwrites (by rw [hend]; decide)
  | path =>
    exact (yields_path indent hwrites (by rw [hend]; decide)).mono fun _ hcopies ↦ hcopies.1

/-- The canonical source of a well-formed tree is scanned and read as the tree again. -/
theorem WellFormed.ofSource_text (h : leaf.WellFormed tree) (file : String) (memoize : Bool) :
    ∃ row stop again, Token.ofSource file (leaf.text tree) =
        .ok (row ++ [⟨⟨.endOfInput, .none⟩, stop⟩]) ∧
      Answers ⟨(row ++ [⟨⟨.endOfInput, .none⟩, stop⟩]).toArray, memoize⟩ .start leaf.rule
        (.ok again) row.length ∧
      leaf.erase again = leaf.erase tree := by
  obtain ⟨tokens, next, last, hscan, hwrites, hnext, hlast⟩ := h.lays.ofSource_renderTrimmed file
  rw [← leaf.text_eq] at hscan
  obtain ⟨stop, hstop⟩ := Token.getLast?_of_ofSource hscan
  obtain ⟨row, rfl⟩ := List.getLast?_eq_some_iff.1 hstop
  have hend : next.ahead = .endOfInput := by
    rw [View.ahead, hnext]
    exact hlast
  obtain ⟨again, count, hanswer, hagain, hdrop⟩ :=
    answers_of_yields (h.yields hwrites hend 0) memoize
  -- One token is left of all, and so the others are read.
  have hcount : count = row.length := by
    have hlength := congrArg List.length (hdrop.trans hnext)
    rw [List.length_drop, List.length_append, List.length_singleton, List.length_singleton]
      at hlength
    omega
  exact ⟨row, stop, again, hscan, hcount ▸ hanswer, hagain⟩

/-- If the rule of types, patterns or paths succeeds on the tokens of a source text, at whatever
position and inside whatever blocks, then it also succeeds on the tokens of the canonical source of
what it found: it reads all of them but the end of the input as the same tree up to locations. -/
theorem ofSource_text_of_parse (leaf : Leaf) {file source : String} {tokens : List Token}
    (htokens : Token.ofSource file source = .ok tokens) {memoize : Bool}
    {actions : List Session.Action} {s s' : State}
    (hreached : s ∈ Session.reached ⟨tokens.toArray, memoize⟩ actions) (blocks : List Nat) {p : Nat}
    {found : leaf.rule.Result}
    (h : parse (.rule leaf.rule) ⟨tokens.toArray, memoize⟩ ⟨p, blocks, s.table⟩ =
      .ok (.ok found, s')) (file' : String) (memoize' : Bool) :
    ∃ row stop again, Token.ofSource file' (leaf.text found) =
        .ok (row ++ [⟨⟨.endOfInput, .none⟩, stop⟩]) ∧
      Answers ⟨(row ++ [⟨⟨.endOfInput, .none⟩, stop⟩]).toArray, memoize'⟩ .start leaf.rule
        (.ok again) row.length ∧
      leaf.erase again = leaf.erase found := by
  have hrule : leaf.rule ≠ .program := by cases leaf <;> decide
  obtain ⟨row, hderives, hscanned⟩ := exists_allScanned_of_parse htokens hreached blocks hrule h
  exact (wellFormed_of_derives hderives hscanned).ofSource_text file' memoize'

-- The text is read as a type of the given canonical source.
private def writesType (source canonical : String) : Bool :=
  match Token.ofSource "f" source with
  | .error _ => false
  | .ok tokens =>
    match parse (.rule type.rule) ⟨tokens.toArray, false⟩ .start with
    | .ok (.ok found, _) => type.text found = canonical
    | _ => false

private theorem exists_of_writesType (source canonical : String)
    (h : writesType source canonical = true) :
    ∃ tokens found s', Token.ofSource "f" source = .ok tokens ∧
      parse (.rule type.rule) ⟨tokens.toArray, false⟩ .start = .ok (.ok found, s') ∧
      type.text found = canonical := by
  unfold writesType at h
  split at h
  · cases h
  · next tokens htokens =>
    split at h
    · next found reached hparse =>
      exact ⟨tokens, found, reached, htokens, hparse, of_decide_eq_true h⟩
    · cases h

/-- Type arguments inside type arguments are closed by brackets that stand side by side, and the
brackets are read one by one. -/
theorem ofSource_text_of_parse_nested :
    ∃ tokens found s', Token.ofSource "f" "A< ..B , C<D> >" = .ok tokens ∧
      parse (.rule type.rule) ⟨tokens.toArray, false⟩ .start = .ok (.ok found, s') ∧
      ∃ row stop again,
        Token.ofSource "g" "A<..B, C<D>>" = .ok (row ++ [⟨⟨.endOfInput, .none⟩, stop⟩]) ∧
        Answers ⟨(row ++ [⟨⟨.endOfInput, .none⟩, stop⟩]).toArray, true⟩ .start type.rule
          (.ok again) row.length ∧
        type.erase again = type.erase found := by
  obtain ⟨tokens, found, s', htokens, hparse, htext⟩ :=
    exists_of_writesType "A< ..B , C<D> >" "A<..B, C<D>>" (by decide +kernel)
  have hreached : State.start ∈ Session.reached ⟨tokens.toArray, false⟩ [] := .head _
  refine ⟨tokens, found, s', htokens, hparse, ?_⟩
  rw [← htext]
  exact ofSource_text_of_parse type htokens hreached [] hparse "g" true

end Leaf

end Offside
