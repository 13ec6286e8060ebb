import Bindery.Counting
import Bindery.Json.Decimal
import Bindery.Text.Quoted

/-!
# Faults of a document

A **fault** is what a reader found wrong with a text, and where. Some causes are
about the text itself, such as a missing comma, the others about what it says, such
as a number where a name is wanted.

A place in a text is *what is left of the text* there: a reader never counts
characters, it only hands on the rest. `Bindery.Json.Place.at` adds a number of
bytes to that, since a fault may be blamed on the byte that was looked at, or lie in
the middle of an escape. Only when the fault is shown is the place turned into a
line and a column (`Bindery.Json.Position.ofPlace`).

A fault that concerns a container as a whole, such as a missing field, is blamed on
the end of the innermost container around it. Until that end is known its place is
**pending** (`Bindery.Json.Place.pending`), and `Bindery.Json.Fault.settle` closes it.
-/

namespace Bindery.Json

/-! ### Causes -/

/-- What a value is at first sight. -/
inductive Shape where
  | null
  | boolean (value : Bool)
  | number (value : Number)
  | string (value : String)
  | sequence
  | map
  deriving DecidableEq, Repr

/-- The shape of a value. -/
def shape : Json → Shape
  | null => .null
  | boolean value => .boolean value
  | number value => .number value
  | string value => .string value
  | array _ => .sequence
  | object _ => .map

/-- The shape in words. -/
def Shape.describe : Shape → String
  | null => "null"
  | boolean value => "boolean `" ++ (if value then "true" else "false") ++ "`"
  | number (.integer value) => "integer `" ++ toString value ++ "`"
  | number (.decimal negative significand exponent) =>
    "floating point `" ++ Number.showDecimal negative significand exponent ++ "`"
  | string value => "string " ++ Text.quoted value
  | sequence => "sequence"
  | map => "map"

/-- What can be wrong with a document. -/
inductive Cause where
  | endInList
  | endInObject
  | endInString
  | endInValue
  | expectedColon
  | expectedListComma
  | expectedObjectComma
  | expectedLiteral
  | expectedValue
  | invalidEscape
  | invalidNumber
  | numberOutOfRange
  | controlCharacter
  | keyNotString
  | loneSurrogate
  | trailingComma
  | trailingCharacters
  | truncatedEscape
  | nestedTooDeep
  /-- A value of another form than the one that is wanted. -/
  | invalidType (found : Shape) (expected : String)
  /-- A list with another number of items than the one that is wanted. -/
  | invalidLength (length : Nat) (expected : String)
  /-- A word that is none of the known ones. -/
  | unknownVariant (word : String) (known : List String)
  | missingField (label : String)
  | duplicateField (label : String)
  deriving DecidableEq, Repr

/-- The cause in words. -/
def Cause.message : Cause → String
  | endInList => "EOF while parsing a list"
  | endInObject => "EOF while parsing an object"
  | endInString => "EOF while parsing a string"
  | endInValue => "EOF while parsing a value"
  | expectedColon => "expected `:`"
  | expectedListComma => "expected `,` or `]`"
  | expectedObjectComma => "expected `,` or `\x7d`"
  | expectedLiteral => "expected ident"
  | expectedValue => "expected value"
  | invalidEscape => "invalid escape"
  | invalidNumber => "invalid number"
  | numberOutOfRange => "number out of range"
  | controlCharacter => "control character (\\u0000-\\u001F) found while parsing a string"
  | keyNotString => "key must be a string"
  | loneSurrogate => "lone leading surrogate in hex escape"
  | trailingComma => "trailing comma"
  | trailingCharacters => "trailing characters"
  | truncatedEscape => "unexpected end of hex escape"
  | nestedTooDeep => "recursion limit exceeded"
  | invalidType found expected =>
    "invalid type: " ++ found.describe ++ ", expected " ++ expected
  | invalidLength length expected =>
    "invalid length " ++ toString length ++ ", expected " ++ expected
  | unknownVariant word known =>
    "unknown variant `" ++ word ++ "`, expected one of " ++
      String.intercalate ", " (known.map fun label => "`" ++ label ++ "`")
  | missingField label => "missing field `" ++ label ++ "`"
  | duplicateField label => "duplicate field `" ++ label ++ "`"

/-! ### Places -/

/-- A place in a text. -/
inductive Place where
  /-- So many bytes after the point where this is left of the text. -/
  | at (rest : List Char) (bytes : Nat)
  /-- The end of the innermost container around the point where this is left. -/
  | pending (rest : List Char)
  deriving DecidableEq, Repr

/-- **What is wrong with a document, and where**. -/
structure Fault where
  cause : Cause
  place : Place
  deriving DecidableEq, Repr

namespace Fault

/-- A fault at the point where this is left of the text. -/
def here (cause : Cause) (rest : List Char) : Fault := ⟨cause, .at rest 0⟩

/-- A fault blamed on the byte that comes next. -/
def next (cause : Cause) (rest : List Char) : Fault := ⟨cause, .at rest 1⟩

/-- A fault that is to be blamed on the end of a container. -/
def pending (cause : Cause) (rest : List Char) : Fault := ⟨cause, .pending rest⟩

/-- The fault in a container, whose end is found by `close` from any point in it. -/
def settle (close : List Char → List Char) (fault : Fault) : Fault :=
  match fault.place with
  | .at _ _ => fault
  | .pending rest => here fault.cause (close rest)

end Fault

/-! ### Lines and columns -/

/-- A line, counted from one, and the number of bytes before a point in it. -/
structure Position where
  line : Nat
  column : Nat
  deriving DecidableEq, Repr

namespace Position

/-- The number of bytes of a text. -/
def byteLength (text : List Char) : Nat := total (text.map Char.utf8Size)

/-- The position after one more character. -/
def step (position : Position) (c : Char) : Position :=
  if c = '\n' then ⟨position.line + 1, 0⟩ else ⟨position.line, position.column + c.utf8Size⟩

/-- The position so many bytes further on in a text, and no further than its end. -/
def advance (position : Position) : List Char → Nat → Position
  | [], _ => position
  | c :: text, bytes =>
    if bytes = 0 then position
    else if c.utf8Size ≤ bytes then advance (position.step c) text (bytes - c.utf8Size)
    else ⟨position.line, position.column + bytes⟩

/-- **The position of a place in a text**. -/
def ofPlace (text : List Char) : Place → Position
  | .at rest bytes => advance ⟨1, 0⟩ text (byteLength text - byteLength rest + bytes)
  | .pending rest => advance ⟨1, 0⟩ text (byteLength text - byteLength rest)

end Position

/-- **The fault as it is shown to the writer of the text**. -/
def Fault.message (text : List Char) (fault : Fault) : String :=
  let position := Position.ofPlace text fault.place
  fault.cause.message ++ " at line " ++ toString position.line ++
    " column " ++ toString position.column

end Bindery.Json
