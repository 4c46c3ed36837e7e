/-!
# Outlines

An outline shows a tree with every field named, one to a line, four blanks to a level. Records and
lists close with a comma behind their last part, and what is empty stays on its line. Each text is
written before the text that follows it, so that no part is copied for the parts around it.
-/

namespace Offside

mutual

/-- What an outline shows. -/
inductive Outline where
  /-- A text that stays on one line. -/
  | leaf (text : List Char)
  /-- A name with named parts between braces. -/
  | record (name : String) (fields : List Field)
  /-- A name with one part between parentheses. -/
  | tagged (name : String) (inner : Outline)
  | list (items : List Outline)

/-- A named part of a record. -/
inductive Field where
  | mk (name : String) (value : Outline)

end

namespace Outline

/-- The beginning of a line at a level, before `after`. -/
def lineStart (level : Nat) (after : List Char) : List Char :=
  '\n' :: List.replicate (4 * level) ' ' ++ after

mutual

/-- The text of an outline that begins on a line of a level, before `after`. -/
def textBefore (level : Nat) : Outline → (after : List Char) → List Char
  | leaf text, after => text ++ after
  | record name [], after => name.toList ++ after
  | record name (first :: rest), after =>
    name.toList ++ ' ' :: '\x7b' :: fieldBefore (level + 1) first
      (fieldsBefore (level + 1) rest (lineStart level ('\x7d' :: after)))
  | tagged name inner, after =>
    name.toList ++ '(' :: lineStart (level + 1)
      (textBefore (level + 1) inner (',' :: lineStart level (')' :: after)))
  | list [], after => '[' :: ']' :: after
  | list (first :: rest), after =>
    '[' :: lineStart (level + 1) (textBefore (level + 1) first
      (',' :: itemsBefore (level + 1) rest (lineStart level (']' :: after))))

/-- The lines of further items of a list, before `after`. -/
def itemsBefore (level : Nat) : List Outline → (after : List Char) → List Char
  | [], after => after
  | item :: rest, after =>
    lineStart level (textBefore level item (',' :: itemsBefore level rest after))

/-- The lines of further parts of a record, before `after`. -/
def fieldsBefore (level : Nat) : List Field → (after : List Char) → List Char
  | [], after => after
  | field :: rest, after => fieldBefore level field (fieldsBefore level rest after)

/-- The lines of a part of a record, before `after`. -/
def fieldBefore (level : Nat) : Field → (after : List Char) → List Char
  | .mk name value, after =>
    lineStart level (name.toList ++ ':' :: ' ' :: textBefore level value (',' :: after))

end

/-- The text of an outline. -/
def text (outline : Outline) : String := String.ofList (outline.textBefore 0 [])

end Outline

end Offside
