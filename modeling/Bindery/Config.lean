import Std.Data.TreeSet

/-!
# What a run leaves out and what it may not name

A **configuration** holds two sets of words. The **denylist** says which symbols
and members are left out of the bindings; the **reserved** words are those that a
generated identifier must avoid. `Bindery.Config.standard` is the configuration of
an ordinary run, `Bindery.Config.empty` denies and reserves nothing.

A symbol of module scope is denied by its name, by its namespace or by the two
together, written `namespace:name` (`Bindery.Config.denies`). A member is denied
only together with its owner, written `owner:member`
(`Bindery.Config.deniesMember`).
-/

namespace Bindery

/-- The fixed inputs of a generation run. -/
structure Config where
  /-- Names, namespaces and qualified names that are left out. -/
  denylist : Std.TreeSet String
  /-- Words that may not be used as identifiers. -/
  reserved : Std.TreeSet String

namespace Config

/-! ### The words of an ordinary run -/

/-- The keywords of Nim. -/
def keywords : List String :=
  ["addr", "and", "as", "asm", "bind", "block", "break", "case", "cast", "concept", "const",
   "continue", "converter", "defer", "discard", "distinct", "div", "do", "elif", "else", "end",
   "enum", "except", "export", "finally", "for", "from", "func", "if", "import", "in",
   "include", "interface", "is", "isnot", "iterator", "let", "macro", "method", "mixin", "mod",
   "nil", "not", "notin", "object", "of", "or", "out", "proc", "ptr", "raise", "ref", "return",
   "shl", "shr", "static", "template", "try", "tuple", "type", "using", "var", "when", "while",
   "xor", "yield"]

/-- Globals that clash with Nim's system module, and members that cannot be bound
faithfully. -/
def unbindable : List String :=
  ["undefined", "NaN", "Infinity", "globalThis", "eval", "Symbol", "Object:constructor",
   "Function:apply", "Function:bind", "Function:call"]

/-! ### Making a configuration -/

/-- Nothing is denied and nothing is reserved. -/
def empty : Config := ⟨∅, ∅⟩

/-- Leave out these names as well. -/
def deny (config : Config) (names : List String) : Config :=
  { config with denylist := config.denylist.insertMany names }

/-- Avoid these words as well. -/
def reserve (config : Config) (words : List String) : Config :=
  { config with reserved := config.reserved.insertMany words }

/-- **The configuration of an ordinary run**. -/
def standard : Config :=
  (empty.deny unbindable).reserve keywords

instance : Inhabited Config := ⟨standard⟩

/-! ### Asking it -/

/-- The name of something inside something else, as the denylist writes it. -/
def qualified (outer inner : String) : String := outer ++ ":" ++ inner

/-- Whether a symbol of module scope is left out: its name alone, its namespace
alone, or the two together are denied. -/
def denies (config : Config) (scope : Option String) (name : String) : Bool :=
  config.denylist.contains name ||
    match scope with
    | some scope =>
      config.denylist.contains scope || config.denylist.contains (qualified scope name)
    | none => false

/-- Whether a member is left out. Only its name together with its owner's counts. -/
def deniesMember (config : Config) (owner member : String) : Bool :=
  config.denylist.contains (qualified owner member)

end Config

end Bindery
