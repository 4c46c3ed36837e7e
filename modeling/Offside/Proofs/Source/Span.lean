import Offside.Proofs.Source.Tiling
import Offside.Source.Span

/-!
# Cuts lie between characters

Reading a text by spans gives the tokens that reading it character by character gives
(`Token.ofSpans?_eq`). Every byte that the scanner names is the number of bytes of a text that the
source begins with, so each cut finds what stands between two such beginnings (`cut?_append`), and
the line of such a byte is the one behind the line feeds before it (`LineIndex.locate?_behind`).
-/

namespace Offside

variable {file : String} {front text word rest : List Char} {c : Char}

/-! ### Cuts -/

-- The number of bytes of a text.
private def bytes (text : List Char) : Nat := (String.ofList text).utf8ByteSize

private theorem bytes_append (front rest : List Char) :
    bytes (front ++ rest) = bytes front + bytes rest := by
  unfold bytes
  rw [String.ofList_append, String.utf8ByteSize_append]

private theorem bytes_singleton (c : Char) : bytes [c] = c.utf8Size := by
  simp [bytes]

private theorem bytes_cons (c : Char) (rest : List Char) :
    bytes (c :: rest) = c.utf8Size + bytes rest := by
  rw [← List.singleton_append, bytes_append, bytes_singleton]

private theorem exists_pos? (front rest : String) :
    ∃ position, (front ++ rest).pos? ⟨front.utf8ByteSize⟩ = some position ∧
      position.Splits front rest := by
  have hvalid : String.Pos.Raw.IsValid (front ++ rest) ⟨front.utf8ByteSize⟩ :=
    String.Pos.Raw.isValid_rawEndPos.append_right rest
  refine ⟨(front ++ rest).pos _ hvalid, ?_, rfl, rfl⟩
  unfold String.pos? String.Slice.pos?
  rw [dif_pos (String.Pos.Raw.isValidForSlice_eq_true_iff.2 hvalid.toSlice)]
  rfl

/-- What stands between two texts is cut out by their bytes. -/
theorem cut?_append (front word rest : String) :
    cut? (front ++ word ++ rest) front.utf8ByteSize (front ++ word).utf8ByteSize = some word := by
  obtain ⟨last, hlast, hlastSplits⟩ := exists_pos? (front ++ word) rest
  have hfirst := exists_pos? front (word ++ rest)
  rw [← String.append_assoc] at hfirst
  obtain ⟨first, hfirst, hfirstSplits⟩ := hfirst
  obtain ⟨hle, hcopy⟩ :=
    String.copy_slice_eq_iff_splits.2 ⟨front, rest, hfirstSplits, hlastSplits⟩
  unfold cut? String.slice?
  simp only [hfirst, hlast, dif_pos hle, Option.bind_eq_bind, Option.bind_some, hcopy]
  rfl

private theorem cut?_bytes (front word rest : List Char) :
    cut? (String.ofList (front ++ (word ++ rest))) (bytes front) (bytes front + bytes word) =
      some (String.ofList word) := by
  rw [← bytes_append, ← List.append_assoc, String.ofList_append, String.ofList_append]
  unfold bytes
  rw [String.ofList_append]
  exact cut?_append _ _ _

private theorem cut?_drop (front word : List Char) :
    cut? (String.ofList (front ++ word)) (bytes front) (bytes (front ++ word)) =
      some (String.ofList word) := by
  have h := cut?_bytes front word []
  rwa [List.append_nil, ← bytes_append] at h

private theorem inside?_quoted (quote other : Char) (body : List Char) (h : quote.utf8Size = 1)
    (h' : other.utf8Size = 1) :
    inside? (String.ofList (quote :: (body ++ [other]))) = some (String.ofList body) := by
  have hsize : (String.ofList (quote :: (body ++ [other]))).utf8ByteSize = bytes body + 1 + 1 := by
    change bytes (quote :: (body ++ [other])) = _
    rw [bytes_cons, bytes_append, bytes_singleton, h, h', Nat.add_comm]
  have hcut := cut?_bytes [quote] body [other]
  rw [bytes_singleton, h, Nat.add_comm] at hcut
  unfold inside?
  rw [hsize]
  exact hcut

/-! ### Lines -/

namespace LineIndex

private theorem startsFrom_append (offset : Nat) (front rest : List Char) :
    startsFrom offset (front ++ rest) =
      startsFrom offset front ++ startsFrom (offset + bytes front) rest := by
  induction front generalizing offset with
  | nil => rfl
  | cons c front ih =>
    rw [List.cons_append, startsFrom, startsFrom, ih, bytes_cons, Nat.add_assoc]
    split
    · rw [List.cons_append]
    · rfl

private theorem mem_startsFrom {offset start : Nat} (h : start ∈ startsFrom offset text) :
    offset < start ∧ start ≤ offset + bytes text := by
  induction text generalizing offset with
  | nil => cases h
  | cons c rest ih =>
    rw [bytes_cons]
    unfold startsFrom at h
    have hpos := c.utf8Size_pos
    have hrest (h : start ∈ startsFrom (offset + c.utf8Size) rest) :
        offset < start ∧ start ≤ offset + (c.utf8Size + bytes rest) := by
      obtain ⟨hlt, hle⟩ := ih h
      omega
    split at h
    · obtain rfl | h := List.mem_cons.1 h
      · omega
      · exact hrest h
    · exact hrest h

private theorem length_startsFrom (offset : Nat) (text : List Char) :
    (startsFrom offset text).length = text.count '\n' := by
  induction text generalizing offset with
  | nil => rfl
  | cons c rest ih =>
    unfold startsFrom
    split
    · next hc => rw [List.length_cons, ih, hc, List.count_cons_self]
    · next hc => rw [ih, List.count_cons_of_ne hc]

/-- The lines of a text begin one behind the other. -/
theorem pairwise_startsFrom (offset : Nat) (text : List Char) :
    (startsFrom offset text).Pairwise (· < ·) := by
  induction text generalizing offset with
  | nil => exact .nil
  | cons c rest ih =>
    unfold startsFrom
    split
    · next hc =>
      refine .cons (fun start hstart ↦ ?_) (ih _)
      have hlt := (mem_startsFrom hstart).1
      rwa [hc] at hlt
    · exact ih _

/-- Lines start one behind the other. -/
theorem pairwise_starts (text : String) : (ofText text).starts.Pairwise (· < ·) :=
  .cons (fun _ hstart ↦ (mem_startsFrom hstart).1) (pairwise_startsFrom 0 _)

-- The last line that begins in a text holds what stands behind its last line feed.
private theorem exists_line (text : List Char) :
    ∃ front line, text = front ++ line ∧
      line.length = (text.reverse.takeWhile (· ≠ '\n')).length ∧
      (0 :: startsFrom 0 text)[text.count '\n']? = some (bytes front) := by
  induction text using List.reverseRecOn with
  | nil => exact ⟨[], [], rfl, rfl, rfl⟩
  | append_singleton text c ih =>
    have hlength : (startsFrom 0 text).length = text.count '\n' := length_startsFrom 0 text
    rw [startsFrom_append, Nat.zero_add, List.count_append, List.reverse_concat]
    by_cases hc : c = '\n'
    · subst hc
      refine ⟨text ++ ['\n'], [], (List.append_nil _).symm, rfl, ?_⟩
      simp only [startsFrom, if_true, List.count_singleton_self, ← hlength, List.getElem?_cons_succ,
        List.getElem?_concat_length, bytes_append, bytes_singleton]
      rfl
    · obtain ⟨front, line, rfl, hline, hstart⟩ := ih
      refine ⟨front, line ++ [c], List.append_assoc .., ?_, ?_⟩
      · rw [List.takeWhile_cons_of_pos (by simpa using hc), List.length_append, List.length_cons,
          hline]
        rfl
      · rw [List.count_singleton, if_neg (by simpa using hc), Nat.add_zero, startsFrom, if_neg hc,
          startsFrom, List.append_nil]
        exact hstart

private theorem starts_append (front rest : List Char) :
    (ofText (String.ofList (front ++ rest))).starts =
      0 :: startsFrom 0 front ++ startsFrom (bytes front) rest := by
  unfold ofText
  dsimp only
  rw [String.toList_ofList, startsFrom_append, Nat.zero_add, List.cons_append]

-- Of the lines of a text, those of what it begins with do not begin behind that.
private theorem takeWhile_starts (front rest : List Char) :
    (0 :: startsFrom 0 front ++ startsFrom (bytes front) rest).takeWhile (· ≤ bytes front) =
      0 :: startsFrom 0 front := by
  have hfront (start : Nat) (h : start ∈ 0 :: startsFrom 0 front) :
      decide (start ≤ bytes front) = true := by
    obtain rfl | h := List.mem_cons.1 h
    · exact decide_eq_true (Nat.zero_le _)
    · exact decide_eq_true (by simpa using (mem_startsFrom h).2)
  rw [List.takeWhile_append_of_pos hfront]
  cases hrest : startsFrom (bytes front) rest with
  | nil => exact List.append_nil _
  | cons start later =>
    have hlt := (mem_startsFrom (hrest ▸ List.mem_cons_self)).1
    rw [List.takeWhile_cons_of_neg (by simpa using hlt), List.append_nil]

/-- The byte behind what a text begins with is found in the row and the column behind that. -/
theorem locate?_behind (file : String) {source : String}
    (h : source = String.ofList (front ++ rest)) :
    (ofText source).locate? file source (Place.behind front).offset =
      some ((Place.behind front).inFile file) := by
  subst h
  change locate? _ file _ (bytes front) = _
  obtain ⟨before, line, hfront, hline, hstart⟩ := exists_line front
  have hlength : front.count '\n' < (0 :: startsFrom 0 front).length := by
    rw [List.length_cons, length_startsFrom]
    exact Nat.lt_succ_self _
  have hcut := cut?_bytes before line rest
  rw [← List.append_assoc, ← bytes_append, ← hfront] at hcut
  unfold locate?
  rw [starts_append, takeWhile_starts, List.length_cons, length_startsFrom]
  dsimp only
  rw [List.getElem?_append_left hlength, hstart]
  simp only [Option.bind_eq_bind, Option.bind_some, hcut]
  rw [String.length_ofList, hline, Nat.add_comm, Nat.add_comm _ 1]
  rfl

end LineIndex

/-! ### Lexemes -/

namespace LexemeClass

open Lexeme

variable {lexeme : List Char}

private theorem cut?_based {lower upper : Char} {digit : Char → Bool}
    (hlower : lower.utf8Size = 1) (hupper : upper.utf8Size = 1)
    (h : lexeme ∈ based lower upper digit) :
    cut? (String.ofList lexeme) 2 (String.ofList lexeme).utf8ByteSize =
      some (String.ofList (lexeme.drop 2)) := by
  obtain ⟨mark, digits, hmark, -, rfl⟩ := mem_based.1 h
  have hsize : bytes ['0', mark] = 2 := by
    rw [bytes_cons, bytes_singleton]
    obtain rfl | rfl := hmark
    · rw [hlower]
      rfl
    · rw [hupper]
      rfl
  have hcut := cut?_drop ['0', mark] digits
  rwa [hsize] at hcut

private theorem inside?_eq {quote : Char} {language : Language Char} (hquote : quote.utf8Size = 1)
    (h : lexeme ∈ {[quote]} * language * ({[quote]} : Language Char)) :
    inside? (String.ofList lexeme) = some (String.ofList (lexeme.drop 1).dropLast) := by
  obtain ⟨_, hfront, rfl⟩ := mem_mul_singleton.1 h
  obtain ⟨body, -, rfl⟩ := mem_singleton_mul.1 hfront
  have hbody : (([quote] ++ body ++ [quote]).drop 1).dropLast = body := List.dropLast_concat
  rw [hbody]
  exact inside?_quoted quote quote body hquote hquote

/-- What is cut out of a lexeme is there. -/
theorem read?_ofList {lexemeClass : LexemeClass} (h : lexeme ∈ lexemeClass.pattern) :
    lexemeClass.read? (String.ofList lexeme) = some (lexemeClass.read lexeme) := by
  cases lexemeClass with
  | hexadecimal =>
    have hcut := cut?_based rfl rfl h
    simp only [read?, hcut, Option.bind_eq_bind, Option.bind_some, String.toList_ofList]
    rfl
  | binary =>
    have hcut := cut?_based rfl rfl h
    simp only [read?, hcut, Option.bind_eq_bind, Option.bind_some, String.toList_ofList]
    rfl
  | closedString =>
    have hinside := inside?_eq rfl h
    simp only [read?, hinside, Option.bind_eq_bind, Option.bind_some, String.toList_ofList, read]
    cases Text.Quoted.decode (lexeme.drop 1).dropLast <;> rfl
  | character =>
    have hinside := inside?_eq rfl h
    simp only [read?, hinside, Option.bind_eq_bind, Option.bind_some, String.toList_ofList, read]
    obtain _ | ⟨_ | ⟨c, _ | ⟨d, text⟩⟩⟩ := Text.Quoted.decode (lexeme.drop 1).dropLast <;> rfl
  | _ => exact congrArg (fun word ↦ some (read _ word)) String.toList_ofList

end LexemeClass

/-! ### The scanner by spans -/

namespace Token

attribute [local irreducible] LexemeClass.longest LexemeClass.read LexemeClass.read?

variable {source : String}

private theorem frontSpan?_eq (h : source = String.ofList (front ++ text)) :
    frontSpan? source (Place.behind front).offset text =
      some (match LexemeClass.longest text with
        | none => .error (.unexpectedCharacter, String.ofList (text.take 1))
        | some (lexemeClass, length) =>
          match lexemeClass.read (text.take length) with
          | .error fault => .error (fault, String.ofList (text.take length))
          | .ok terminal => .ok (terminal, length)) := by
  have hcut (length : Nat) :
      cut? source (Place.behind front).offset
          ((Place.behind front).offset + (String.ofList (text.take length)).utf8ByteSize) =
        some (String.ofList (text.take length)) := by
    have hbytes := cut?_bytes front (text.take length) (text.drop length)
    rwa [List.take_append_drop, ← h] at hbytes
  unfold frontSpan?
  cases hlongest : LexemeClass.longest text with
  | none =>
    dsimp only
    rw [hcut]
    rfl
  | some found =>
    obtain ⟨lexemeClass, length⟩ := found
    have hread := LexemeClass.read?_ofList (begins_of_longest hlongest).2.2
    simp only [hcut, hread, Option.bind_eq_bind, Option.bind_some]
    cases lexemeClass.read (text.take length) <;> rfl

-- Scanning by spans finds the tokens behind what has been read of a source.
private theorem scanSpans?_eq (h : source = String.ofList (front ++ rest)) (file : String)
    (pending : Nat) :
    scanSpans? file source (.ofText source) pending (Place.behind front).offset rest =
      some (scan file pending (Place.behind front) rest) := by
  induction rest generalizing front pending with
  | nil =>
    have hend : source.utf8ByteSize = (Place.behind front).offset := by
      rw [h, List.append_nil]
      rfl
    unfold scanSpans?
    rw [scan_nil, hend, LineIndex.locate?_behind file h]
    rfl
  | cons c rest ih =>
    -- Behind the character the rest is read in either way.
    have hnext (pending : Nat) :
        scanSpans? file source (.ofText source) pending
            ((Place.behind front).offset + c.utf8Size) rest =
          some (scan file pending ((Place.behind front).after c) rest) := by
      rw [← Place.offset_after, Place.after_behind]
      exact ih (by simpa using h) pending
    cases pending with
    | succ pending => exact hnext pending
    | zero =>
      unfold scanSpans?
      rw [scan_zero]
      cases hblank : isBlank c with
      | true => exact hnext 0
      | false =>
        simp only [LineIndex.locate?_behind file h, frontSpan?_eq h, Bool.false_eq_true, if_false,
          Option.bind_eq_bind, Option.bind_some]
        cases LexemeClass.longest (c :: rest) with
        | none => rfl
        | some found =>
          obtain ⟨lexemeClass, length⟩ := found
          dsimp only
          cases lexemeClass.read ((c :: rest).take length) with
          | error fault => rfl
          | ok terminal =>
            simp only [hnext, Option.bind_some]
            cases scan file (length - 1) ((Place.behind front).after c) rest <;> rfl

/-- Reading a source by spans gives its tokens: no cut is off, and each line is there. -/
theorem ofSpans?_eq (file source : String) :
    ofSpans? file source = some (ofSource file source) := by
  have hsource : source = String.ofList ([] ++ source.toList) := String.ofList_toList.symm
  exact scanSpans?_eq hsource file 0

end Token

end Offside
