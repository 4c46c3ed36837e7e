import Offside.Unicode.Extender
import Offside.Unicode.Unprintable

/-!
# Texts with every character visible

Messages and outlines show a text in quotes such that no character of it is lost to the eye:
characters without a mark of their own, and marks that would join the character before them, are
shown by their code point.
-/

namespace Offside.Text.Visible

/-- The lower-case hexadecimal code point in braces after `\u`. -/
def codePoint (c : Char) : List Char :=
  ['\\', 'u', '\x7b'] ++ Nat.toDigits 16 c.toNat ++ ['\x7d']

/-- One character inside a pair of `quote`. -/
def visibleChar (quote c : Char) : List Char :=
  match c with
  | '\x00' => ['\\', '0']
  | '\t' => ['\\', 't']
  | '\r' => ['\\', 'r']
  | '\n' => ['\\', 'n']
  | '\\' => ['\\', '\\']
  | c =>
    if c = quote then ['\\', c]
    else if Unicode.extendsGrapheme c || Unicode.isUnprintable c then codePoint c
    else [c]

/-- A text between double quotes. -/
def string (text : String) : List Char :=
  '"' :: text.toList.flatMap (visibleChar '"') ++ ['"']

/-- A character between single quotes. -/
def char (c : Char) : List Char :=
  '\'' :: visibleChar '\'' c ++ ['\'']

end Offside.Text.Visible
