/-!
# JSON values

`Bindery.Json` is a JSON value. An object keeps its entries in the order in which
they are written, repeated keys included, since a reader may care about both.

A `Bindery.Json.Number` is what its digits say, before any rounding: an integer if
it is written as one and fits into 64 bits, and otherwise a significand with a power
of ten. `Bindery.Json.write` writes a value without any blanks.
-/

namespace Bindery

/-- A number as its digits give it. -/
inductive Json.Number where
  /-- An integer of 64 bits, with or without a sign. -/
  | integer (value : Int)
  /-- A significand and a power of ten, with the sign kept apart for the sake of a
  negative zero. -/
  | decimal (negative : Bool) (significand : Nat) (exponent : Int)
  deriving DecidableEq, Repr

/-- **A JSON value**. -/
inductive Json where
  | null
  | boolean (value : Bool)
  | number (value : Json.Number)
  | string (value : String)
  | array (items : List Json)
  | object (entries : List (String × Json))
  deriving Repr, Inhabited

namespace Json

/-! ### Writing -/

/-- The digits of a number below sixteen. -/
def hexDigit (n : Nat) : Char :=
  if n < 10 then Char.ofNat ('0'.toNat + n) else Char.ofNat ('a'.toNat + (n - 10))

/-- A character inside quotes. The quote, the backslash and the controls are
escaped, everything else stands for itself. -/
def escapeChar (c : Char) : List Char :=
  match c with
  | '\"' => ['\\', '\"']
  | '\\' => ['\\', '\\']
  | '\n' => ['\\', 'n']
  | '\r' => ['\\', 'r']
  | '\t' => ['\\', 't']
  | '\x08' => ['\\', 'b']
  | '\x0c' => ['\\', 'f']
  | c =>
    if c.toNat < 0x20 then ['\\', 'u', '0', '0', hexDigit (c.toNat / 16), hexDigit (c.toNat % 16)]
    else [c]

/-- A text in quotes. -/
def quote (text : String) : List Char :=
  '\"' :: (text.toList.flatMap escapeChar ++ ['\"'])

/-- A number as its digits give it. -/
def Number.write : Number → List Char
  | integer value => (toString value).toList
  | decimal negative significand exponent =>
    (if negative then ['-'] else []) ++ Nat.toDigits 10 significand ++
      'e' :: (toString exponent).toList

mutual

/-- A value without any blanks, as characters. -/
def chars : Json → List Char
  | null => ['n', 'u', 'l', 'l']
  | boolean true => ['t', 'r', 'u', 'e']
  | boolean false => ['f', 'a', 'l', 's', 'e']
  | number value => value.write
  | string value => quote value
  | array [] => ['[', ']']
  | array (item :: items) => '[' :: (item.chars ++ itemChars items)
  | object [] => ['\x7b', '\x7d']
  | object ((key, value) :: entries) =>
    '\x7b' :: (quote key ++ ':' :: value.chars ++ entryChars entries)

/-- What follows an item of an array. -/
def itemChars : List Json → List Char
  | [] => [']']
  | item :: items => ',' :: (item.chars ++ itemChars items)

/-- What follows an entry of an object. -/
def entryChars : List (String × Json) → List Char
  | [] => ['\x7d']
  | (key, value) :: entries => ',' :: (quote key ++ ':' :: value.chars ++ entryChars entries)

end

/-- **A value without any blanks**. -/
def write (value : Json) : String := String.ofList value.chars

end Json

end Bindery
