import Offside.Proofs.Source.Front

/-!
# Tokens tile their source

The lexemes of a text and the blanks around them make up the text (`Token.Tiled`), and every token
stands at the place where its lexeme begins, counted from the text before it (`Place.behind`). So
the places increase from token to token, in rows and columns as in bytes. Where a text cannot be
read, all this holds of what comes before the characters at fault (`Token.tiled_of_ofSource`).
-/

namespace Offside

/-! ### Places -/

namespace Place

/-- The place behind a text: it is in one row more than there are line feeds, in one column more
than there are characters behind the last of them, and behind all bytes. -/
def behind (text : List Char) : Place :=
  ⟨1 + text.count '\n', 1 + (text.reverse.takeWhile (· ≠ '\n')).length,
    (String.ofList text).utf8ByteSize⟩

/-- One place is read before another: it is in an earlier row, or further left in the same. -/
def Precedes (place next : Place) : Prop :=
  place.row < next.row ∨ place.row = next.row ∧ place.column < next.column

variable {place next last : Place} {text front other : List Char} {c : Char}

/-- Behind nothing is the start. -/
theorem behind_nil : behind [] = start := rfl

/-- Places are counted character by character. -/
theorem after_behind (text : List Char) (c : Char) :
    (behind text).after c = behind (text ++ [c]) := by
  have hoffset : (String.ofList (text ++ [c])).utf8ByteSize =
      (String.ofList text).utf8ByteSize + c.utf8Size := by
    simp [String.ofList_append]
  unfold behind after
  rw [hoffset]
  split
  · next hc =>
    subst hc
    simp [Nat.add_assoc]
  · next hc => simp [hc, Nat.add_comm]

/-- Walking over a text leads from the place behind what came before to the place behind both. -/
theorem foldl_after_behind (front text : List Char) :
    text.foldl after (behind front) = behind (front ++ text) := by
  induction text generalizing front with
  | nil => rw [List.foldl_nil, List.append_nil]
  | cons c text ih =>
    rw [List.foldl_cons, after_behind, ih, List.append_assoc, List.singleton_append]

private theorem Precedes.trans (h : place.Precedes next) (h' : next.Precedes last) :
    place.Precedes last := by
  unfold Precedes at *
  omega

private theorem Precedes.asymm (h : place.Precedes next) : ¬ next.Precedes place := by
  unfold Precedes at *
  omega

private theorem precedes_after (place : Place) (c : Char) : place.Precedes (place.after c) := by
  unfold Precedes after
  split
  · exact .inl (Nat.lt_succ_self _)
  · exact .inr ⟨rfl, Nat.lt_succ_self _⟩

/-- A character moves the offset by the bytes it takes up. -/
theorem offset_after (place : Place) (c : Char) :
    (place.after c).offset = place.offset + c.utf8Size := by
  unfold after
  split <;> rfl

private theorem offset_lt_after (place : Place) (c : Char) :
    place.offset < (place.after c).offset := by
  rw [offset_after]
  exact Nat.lt_add_of_pos_right c.utf8Size_pos

/-- The place behind a longer text is further on, in rows and columns as in bytes. -/
theorem behind_lt (front : List Char) (hne : text ≠ []) :
    (behind front).Precedes (behind (front ++ text)) ∧
      (behind front).offset < (behind (front ++ text)).offset := by
  induction text generalizing front with
  | nil => exact absurd rfl hne
  | cons c text ih =>
    have hfirst := precedes_after (behind front) c
    have hoffset := offset_lt_after (behind front) c
    rw [after_behind] at hfirst hoffset
    rw [← List.singleton_append, ← List.append_assoc]
    by_cases htext : text = []
    · subst htext
      rw [List.append_nil]
      exact ⟨hfirst, hoffset⟩
    · obtain ⟨hrest, hrest'⟩ := ih (front ++ [c]) htext
      exact ⟨hfirst.trans hrest, Nat.lt_trans hoffset hrest'⟩

/-- Of two places in one text, the one read first is the one with fewer bytes before it. -/
theorem precedes_iff (h : front <+: text) (h' : other <+: text) :
    (behind front).Precedes (behind other) ↔ (behind front).offset < (behind other).offset := by
  wlog hle : front <+: other generalizing front other
  · have hother := (List.prefix_or_prefix_of_prefix h h').resolve_left hle
    obtain ⟨rest, rfl⟩ := hother
    have hne : rest ≠ [] := by
      rintro rfl
      exact hle (by simp)
    obtain ⟨hprecedes, hoffset⟩ := behind_lt other hne
    exact ⟨fun h ↦ absurd h hprecedes.asymm, fun h ↦ absurd h (Nat.lt_asymm hoffset)⟩
  obtain ⟨rest, rfl⟩ := hle
  by_cases hne : rest = []
  · subst hne
    rw [List.append_nil]
    exact ⟨fun h ↦ absurd h h.asymm, fun h ↦ absurd h (Nat.lt_irrefl _)⟩
  · obtain ⟨hprecedes, hoffset⟩ := behind_lt front hne
    exact ⟨fun _ ↦ hoffset, fun _ ↦ hprecedes⟩

/-- The place behind what a source begins with is between two of its characters. -/
theorem isValid_behind {source : String} (h : front <+: source.toList) :
    String.Pos.Raw.IsValid source ⟨(behind front).offset⟩ := by
  obtain ⟨rest, hrest⟩ := h
  refine String.Pos.Raw.isValid_iff_exists_append.2
    ⟨String.ofList front, String.ofList rest, ?_, rfl⟩
  rw [← String.ofList_append, hrest, String.ofList_toList]

end Place

namespace Token

/-- The text consists of the lexemes of a row of tokens, in their order, and of blanks between,
before and behind them, and each token stands where its lexeme begins. -/
inductive Tiled (file : String) : (text : List Char) → (row : List Token) → Prop where
  | nil : Tiled file [] []
  | blank {text row c} : Tiled file text row → isBlank c = true → Tiled file (text ++ [c]) row
  | lexeme {text row lexeme terminal} {lexemeClass : LexemeClass} : Tiled file text row →
      lexeme ∈ lexemeClass.pattern → lexemeClass.read lexeme = .ok terminal →
      Tiled file (text ++ lexeme) (row ++ [⟨terminal, (Place.behind text).inFile file⟩])

/-- The tokens stand between characters of a source, each further on than the one before it, and
their rows and columns are ordered as their offsets are. -/
structure Laid (file source : String) (tokens : List Token) : Prop where
  placed : ∀ token ∈ tokens, ∃ front, front <+: source.toList ∧
    token.location = (Place.behind front).inFile file ∧
    String.Pos.Raw.IsValid source ⟨(Place.behind front).offset⟩
  increasing : tokens.Pairwise fun token later ↦ ∃ place next : Place,
    token.location = place.inFile file ∧ later.location = next.inFile file ∧
    place.offset < next.offset
  ordered : ∀ token ∈ tokens, ∀ other ∈ tokens, ∃ place next : Place,
    token.location = place.inFile file ∧ other.location = next.inFile file ∧
    (place.Precedes next ↔ place.offset < next.offset)

variable {file source : String} {text front rest : List Char} {row tokens : List Token}

/-! ### Tokens of a tiled text -/

/-- No lexeme ends the input. -/
theorem kind_ne_of_read {lexemeClass : LexemeClass} {lexeme : List Char} {terminal : Terminal}
    (h : lexeme ∈ lexemeClass.pattern) (hread : lexemeClass.read lexeme = .ok terminal) :
    terminal.kind ≠ .endOfInput := by
  rw [LexemeClass.kind_of_read hread]
  cases lexemeClass with
  | spelled kind => exact fun hkind ↦ LexemeClass.kind_ne_of_mem_pattern h rfl (congrArg _ hkind)
  | _ => exact fun hkind ↦ TokenKind.noConfusion hkind

private theorem Tiled.kind_ne (h : Tiled file text row) :
    ∀ token ∈ row, token.kind ≠ .endOfInput := by
  induction h with
  | nil => exact fun _ hmem ↦ absurd hmem List.not_mem_nil
  | blank _ _ ih => exact ih
  | lexeme _ hmem hread ih =>
    rw [List.forall_mem_append, List.forall_mem_singleton]
    exact ⟨ih, kind_ne_of_read hmem hread⟩

/-- A token of a tiled text stands behind a beginning of the text that is not all of it. -/
theorem Tiled.placed (h : Tiled file text row) : ∀ token ∈ row, ∃ front rest, rest ≠ [] ∧
    text = front ++ rest ∧ token.location = (Place.behind front).inFile file := by
  induction h with
  | nil => exact fun _ hmem ↦ absurd hmem List.not_mem_nil
  | @blank text _ c _ _ ih =>
    intro token htoken
    obtain ⟨front, rest, -, rfl, hlocation⟩ := ih token htoken
    exact ⟨front, rest ++ [c], by simp, by simp, hlocation⟩
  | @lexeme text _ lexeme _ _ _ hmem _ ih =>
    rw [List.forall_mem_append, List.forall_mem_singleton]
    refine ⟨fun token htoken ↦ ?_, text, lexeme, LexemeClass.ne_nil_of_mem_pattern hmem, rfl, rfl⟩
    obtain ⟨front, rest, hne, rfl, hlocation⟩ := ih token htoken
    exact ⟨front, rest ++ lexeme, by simp [hne], by simp, hlocation⟩

-- A token and one behind it in bytes.
private def Before (file : String) (token later : Token) : Prop :=
  ∃ place next : Place, token.location = place.inFile file ∧ later.location = next.inFile file ∧
    place.offset < next.offset

private theorem Tiled.before (h : Tiled file text row) {last : Token}
    (hlast : last.location = (Place.behind text).inFile file) :
    ∀ token ∈ row, Before file token last := by
  intro token htoken
  obtain ⟨front, rest, hne, rfl, hlocation⟩ := h.placed token htoken
  exact ⟨_, _, hlocation, hlast, (Place.behind_lt front hne).2⟩

private theorem Tiled.increasing (h : Tiled file text row) : row.Pairwise (Before file) := by
  induction h with
  | nil => exact .nil
  | blank _ _ ih => exact ih
  | lexeme htiled _ _ ih =>
    refine List.pairwise_append.2
      ⟨ih, List.pairwise_singleton _ _, fun token htoken last hlast ↦ ?_⟩
    rw [List.mem_singleton] at hlast
    subst hlast
    exact htiled.before rfl token htoken

private theorem laid_of_placed (hplaced : ∀ token ∈ tokens, ∃ front, front <+: source.toList ∧
    token.location = (Place.behind front).inFile file) (h : tokens.Pairwise (Before file)) :
    Laid file source tokens where
  placed token htoken := by
    obtain ⟨front, hfront, hlocation⟩ := hplaced token htoken
    exact ⟨front, hfront, hlocation, Place.isValid_behind hfront⟩
  increasing := h
  ordered token htoken other hother := by
    obtain ⟨front, hfront, hlocation⟩ := hplaced token htoken
    obtain ⟨front', hfront', hlocation'⟩ := hplaced other hother
    exact ⟨_, _, hlocation, hlocation', Place.precedes_iff hfront hfront'⟩

/-- The tokens of a text that a source begins with. -/
theorem Tiled.laid (h : Tiled file text row) (htext : text <+: source.toList) :
    Laid file source row := by
  refine laid_of_placed (fun token htoken ↦ ?_) h.increasing
  obtain ⟨front, rest, -, rfl, hlocation⟩ := h.placed token htoken
  exact ⟨front, (List.prefix_append front rest).trans htext, hlocation⟩

/-- The tokens of a source, with one behind all of it. -/
theorem Tiled.laid_append (h : Tiled file source.toList row) {last : Token}
    (hlast : last.location = (Place.behind source.toList).inFile file) :
    Laid file source (row ++ [last]) := by
  refine laid_of_placed ?_ (List.pairwise_append.2
    ⟨h.increasing, List.pairwise_singleton _ _, fun token htoken other hother ↦ ?_⟩)
  · rw [List.forall_mem_append, List.forall_mem_singleton]
    refine ⟨fun token htoken ↦ ?_, source.toList, List.prefix_rfl, hlast⟩
    obtain ⟨front, hfront, hlocation, -⟩ := (h.laid List.prefix_rfl).placed token htoken
    exact ⟨front, hfront, hlocation⟩
  · rw [List.mem_singleton] at hother
    subst hother
    exact h.before hlast token htoken

/-! ### What is scanned tiles -/

-- What the tokens of a rest, or the error in it, say about a text whose beginning is tiled.
private def Continues (file : String) (text : List Char) (row : List Token) (rest : List Char) :
    Except LexicalError (List Token) → Prop
  | .ok tokens => ∃ later, Tiled file (text ++ rest) (row ++ later) ∧
      tokens = later ++ [⟨⟨.endOfInput, .none⟩, (Place.behind (text ++ rest)).inFile file⟩]
  | .error error => ∃ front span tail later, rest = front ++ span ++ tail ∧ span ≠ [] ∧
      error.snippet = String.ofList span ∧
      error.location = (Place.behind (text ++ front)).inFile file ∧
      Tiled file (text ++ front) (row ++ later)

private theorem Continues.append {more : List Token} {result : Except LexicalError (List Token)}
    (h : Continues file (text ++ front) (row ++ more) rest result) :
    Continues file text row (front ++ rest) (result.map (more ++ ·)) := by
  cases result with
  | ok tokens =>
    obtain ⟨later, htiled, rfl⟩ := h
    refine ⟨more ++ later, ?_, ?_⟩
    · simpa using htiled
    · simp
  | error error =>
    obtain ⟨gap, span, tail, later, rfl, hne, hsnippet, hlocation, htiled⟩ := h
    refine ⟨front ++ gap, span, tail, more ++ later, by simp, hne, hsnippet, ?_, ?_⟩
    · simpa using hlocation
    · simpa using htiled

private theorem continues_of_tiled (rest : List Char) (h : Tiled file text row) :
    Continues file text row rest (scan file 0 (.behind text) rest) := by
  induction hn : rest.length using Nat.strong_induction_on generalizing text row rest with
  | _ n ih =>
    cases rest with
    | nil =>
      rw [scan_nil]
      exact ⟨[], by simpa using h, by simp⟩
    | cons c rest =>
      cases hc : isBlank c with
      | true =>
        rw [scan_blank hc, Place.after_behind]
        have hrest := ih rest.length (hn ▸ Nat.lt_succ_self _) rest (h.blank hc) rfl
        rw [← List.append_nil row] at hrest
        have happend := hrest.append
        rwa [show (fun tokens : List Token ↦ [] ++ tokens) = id from rfl, Except.map_id] at happend
      | false =>
        rw [scan_front hc]
        cases hfront : front (c :: rest) with
        | error fault =>
          obtain ⟨fault, snippet⟩ := fault
          obtain ⟨hne, tail, htail⟩ := snippet_of_front (List.cons_ne_nil _ _) hfront
          refine ⟨[], snippet, tail, [], by simp [htail], hne, rfl, by simp, by simpa using h⟩
        | ok found =>
          obtain ⟨terminal, lexeme⟩ := found
          obtain ⟨lexemeClass, hlongest, hread⟩ := isLongest_of_front hfront
          have hne := LexemeClass.ne_nil_of_mem_pattern hlongest.accepted
          obtain ⟨tail, htail⟩ := hlongest.stands
          dsimp only
          rw [← htail, List.drop_left, Place.foldl_after_behind]
          have hlt : tail.length < n := by
            rw [← hn, ← htail, List.length_append]
            exact Nat.lt_add_of_pos_left (List.length_pos_iff.2 hne)
          have hrest := ih tail.length hlt tail (h.lexeme hlongest.accepted hread) rfl
          exact Continues.append hrest

/-- The lexemes of a source text tile it, up to its end or up to the first characters at fault. Its
tokens stand where their lexemes begin, and behind the last of them is the end of the input. -/
theorem tiled_of_ofSource (file source : String) :
    match ofSource file source with
    | .ok tokens => ∃ row, Tiled file source.toList row ∧
        tokens = row ++ [⟨⟨.endOfInput, .none⟩, (Place.behind source.toList).inFile file⟩] ∧
        (Place.behind source.toList).offset = source.utf8ByteSize ∧
        (∀ token ∈ row, token.kind ≠ .endOfInput) ∧ Laid file source tokens
    | .error error => ∃ front span rest row, source.toList = front ++ span ++ rest ∧ span ≠ [] ∧
        error.snippet = String.ofList span ∧
        error.location = (Place.behind front).inFile file ∧ Tiled file front row ∧
        (∀ token ∈ row, token.kind ≠ .endOfInput) ∧ Laid file source row := by
  have hnil : Tiled file [] [] := .nil
  have h := continues_of_tiled source.toList hnil
  rw [Place.behind_nil] at h
  unfold ofSource
  cases hresult : scan file 0 .start source.toList with
  | ok tokens =>
    rw [hresult] at h
    obtain ⟨row, htiled, rfl⟩ := h
    exact ⟨row, htiled, rfl, congrArg String.utf8ByteSize String.ofList_toList, htiled.kind_ne,
      htiled.laid_append rfl⟩
  | error error =>
    rw [hresult] at h
    obtain ⟨front, span, rest, row, hsource, hne, hsnippet, hlocation, htiled⟩ := h
    refine ⟨front, span, rest, row, hsource, hne, hsnippet, hlocation, htiled, htiled.kind_ne,
      htiled.laid ⟨span ++ rest, ?_⟩⟩
    rw [hsource, List.nil_append, List.append_assoc]

end Token

end Offside
