import Bindery.Config
import Bindery.Text.Uppercase

/-!
# Identifiers

A foreign name need not be a legal identifier: it may begin with an underscore,
hold several in a row, or be a reserved word. `Bindery.sanitize` turns it into one.

* Runs of underscores **collapse** into a single one.
* A leading underscore then becomes the mark `z`.
* A name that is reserved after that gets the mark `x`.

A mark capitalizes the character after it (`Bindery.Ident.marked`), so the two
marked forms read as one word.

A `Bindery.Ident` keeps the generated name together with the foreign one. Where
the two differ the foreign name has to be spelled out in the bindings
(`Bindery.Ident.link?`), inside a quoted text; `Bindery.escapeLink` and
`Bindery.escapePattern` make it fit there.
-/

namespace Bindery

/-! ### Legal names -/

namespace Ident

/-- Every run of underscores becomes a single one. -/
def collapse : List Char → List Char
  | [] => []
  | c :: rest =>
    if c = '_' ∧ rest.head? = some '_' then collapse rest else c :: collapse rest

/-- A mark in front of a name, whose first character becomes a capital. -/
def marked (mark : Char) : List Char → List Char
  | [] => [mark]
  | c :: rest => mark :: (Text.upperCase c ++ rest)

/-- A name without runs of underscores and without a leading one. -/
def plain (name : List Char) : List Char :=
  match collapse name with
  | '_' :: rest => marked 'z' rest
  | name => name

end Ident

/-- **The legal identifier of a foreign name**, which avoids the reserved words. -/
def sanitize (reserved : Std.TreeSet String) (name : String) : String :=
  let plain := Ident.plain name.toList
  if reserved.contains (String.ofList plain) then String.ofList (Ident.marked 'x' plain)
  else String.ofList plain

/-! ### Identifiers and what they link to -/

/-- An identifier of the bindings together with the foreign name it stands for. -/
structure Ident where
  /-- The name in the generated code. -/
  name : String
  /-- The name of the foreign symbol. -/
  foreign : String
  deriving DecidableEq, Repr, Inhabited

namespace Ident

/-- The identifier for a foreign name. -/
def ofForeign (reserved : Std.TreeSet String) (foreign : String) : Ident :=
  ⟨sanitize reserved foreign, foreign⟩

/-- The foreign name, where the generated one does not already say it. -/
def link? (ident : Ident) : Option String :=
  if ident.name = ident.foreign then none else some ident.foreign

end Ident

/-! ### Foreign names inside quoted texts -/

/-- A character inside a quoted link: the quote and the backslash are escaped. -/
def escapeLinkChar (c : Char) : List Char :=
  if c = '\\' ∨ c = '\"' then ['\\', c] else [c]

/-- **A foreign name inside a quoted link**. -/
def escapeLink (name : String) : String :=
  String.ofList (name.toList.flatMap escapeLinkChar)

/-- A character inside a call pattern: the dollar sign is doubled, as a single one
stands for an argument there. -/
def escapePatternChar (c : Char) : List Char :=
  if c = '$' then ['$', '$'] else [c]

/-- **A foreign name inside a quoted call pattern**. -/
def escapePattern (name : String) : String :=
  String.ofList ((escapeLink name).toList.flatMap escapePatternChar)

end Bindery
