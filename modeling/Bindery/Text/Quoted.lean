import Bindery.Text.Visible

/-!
# Quoted texts for a reader

`Bindery.Text.quoted` puts a text into quotes so that a reader sees every character
of it: those that cannot be told apart by sight
(`Bindery.Text.isVisible`) are written as an escape. It is meant for messages, not
for a document, and there is no reader for it.
-/

namespace Bindery.Text

/-- The hexadecimal digits of a code point, between braces. -/
def codeEscape (c : Char) : List Char :=
  '\\' :: 'u' :: '\x7b' :: (Nat.toDigits 16 c.toNat ++ ['\x7d'])

/-- A character inside quotes. -/
def escape (c : Char) : List Char :=
  match c with
  | '\x00' => ['\\', '0']
  | '\t' => ['\\', 't']
  | '\r' => ['\\', 'r']
  | '\n' => ['\\', 'n']
  | '\"' => ['\\', '\"']
  | '\\' => ['\\', '\\']
  | c => if isVisible c then [c] else codeEscape c

/-- **A text in quotes, for a reader**. -/
def quoted (text : String) : String :=
  String.ofList ('\"' :: (text.toList.flatMap escape ++ ['\"']))

end Bindery.Text
