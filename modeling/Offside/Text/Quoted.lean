/-!
# Escapes of quoted literals

The body of a string or character literal writes a backslash, a line feed, a tab, a carriage return
and its own quote with a backslash; every other character stands for itself. `decode_encode` says
that reading what was written gives the text back, for either quote.

Specification §10.2 (strings and characters).
-/

namespace Offside.Text.Quoted

/-- The character that a backslash followed by this one stands for. -/
def escaped? : Char → Option Char
  | '\\' => some '\\'
  | '\'' => some '\''
  | '"' => some '"'
  | 'n' => some '\n'
  | 't' => some '\t'
  | 'r' => some '\r'
  | _ => none

/-- One character as it is written in a body between two of `quote`. -/
def encodeChar (quote c : Char) : List Char :=
  match c with
  | '\\' => ['\\', '\\']
  | '\n' => ['\\', 'n']
  | '\t' => ['\\', 't']
  | '\r' => ['\\', 'r']
  | c => if c = quote then ['\\', c] else [c]

/-- A text as the body between two of `quote`. -/
def encode (quote : Char) (text : List Char) : List Char :=
  text.flatMap (encodeChar quote)

/-- The text that a body stands for; none if a backslash begins no escape. -/
def decode : List Char → Option (List Char)
  | [] => some []
  | '\\' :: c :: rest =>
    match escaped? c, decode rest with
    | some meant, some text => some (meant :: text)
    | _, _ => none
  | c :: rest => if c = '\\' then none else (decode rest).map (c :: ·)

private theorem decode_encodeChar_append {quote : Char} (h : quote = '"' ∨ quote = '\'') (c : Char)
    (rest : List Char) :
    decode (encodeChar quote c ++ rest) = (decode rest).map (c :: ·) := by
  unfold encodeChar
  split
  · cases hr : decode rest <;> simp [decode, escaped?, hr]
  · cases hr : decode rest <;> simp [decode, escaped?, hr]
  · cases hr : decode rest <;> simp [decode, escaped?, hr]
  · cases hr : decode rest <;> simp [decode, escaped?, hr]
  · next hb _ _ _ =>
    split
    · next hq =>
      subst hq
      rcases h with rfl | rfl <;> cases hr : decode rest <;> simp [decode, escaped?, hr]
    · have hne : c ≠ '\\' := hb
      cases hr : decode rest <;> simp [decode, hne, hr]

/-- Reading a written body gives the text back. -/
theorem decode_encode {quote : Char} (h : quote = '"' ∨ quote = '\'') (text : List Char) :
    decode (encode quote text) = some text := by
  induction text with
  | nil => rfl
  | cons c rest ih =>
    have : encode quote (c :: rest) = encodeChar quote c ++ encode quote rest := by
      simp [encode]
    rw [this, decode_encodeChar_append h, ih]
    rfl

end Offside.Text.Quoted
