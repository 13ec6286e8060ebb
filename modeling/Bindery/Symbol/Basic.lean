/-!
# Symbols

A **symbol** is what an analysis of the foreign program found at module scope: a
class, an interface, a function or a global variable, with everything it says about
its types. Nothing here knows how a symbol becomes a declaration.

A `Bindery.ForeignType` is a type as the analysis reports it: a primitive, the name
of another symbol, or a type of some other form, which the analysis resolved but
which has no rendering and is kept as text only.

The functions that make a symbol, such as `Bindery.Symbol.ofClass` and
`Bindery.Symbol.extending`, leave out what they do not mention, so that a symbol is
written as a chain of what it has.
-/

namespace Bindery

/-! ### Foreign types -/

/-- A type as the analysis reports it. -/
inductive ForeignType where
  | number
  | string
  | boolean
  | void
  /-- Another symbol of module scope, by name. -/
  | named (name : String)
  /-- Any other type, in the words of the analysis. -/
  | other (text : String)
  deriving DecidableEq, Repr

/-- The type as it is shown to a reader. -/
def ForeignType.text : ForeignType → String
  | number => "number"
  | string => "string"
  | boolean => "boolean"
  | void => "void"
  | named name => name
  | other text => text

/-! ### The parts of a symbol -/

namespace Symbol

/-- The kinds of symbols. -/
inductive Kind where
  | classType
  | interfaceType
  | function
  /-- A variable of module scope. -/
  | global
  deriving DecidableEq, Repr

/-- Whether a symbol of this kind declares a type. -/
def Kind.isClassLike : Kind → Bool
  | classType | interfaceType => true
  | function | global => false

/-- A parameter of a signature. -/
structure Param where
  name : String
  type : ForeignType
  deriving DecidableEq, Repr

/-- One overload of a function, a method or a constructor. -/
structure Signature where
  params : List Param := []
  returns : ForeignType := .void
  deriving DecidableEq, Repr

/-- The kinds of members. -/
inductive Member.Kind where
  | constructor
  | field
  | method
  /-- Accessors, index signatures and whatever else the analysis knows about. -/
  | other
  deriving DecidableEq, Repr

/-- An entry in the member list of a class or an interface. -/
structure Member where
  name : String
  kind : Member.Kind
  /-- The type of a field. -/
  type : Option ForeignType := none
  /-- The overloads of a constructor or a method. -/
  signatures : List Signature := []
  deriving DecidableEq, Repr

namespace Member

/-- A field of a type. -/
def ofField (name : String) (type : ForeignType) : Member :=
  { name, kind := .field, type := some type }

/-- A method with its overloads. -/
def ofMethod (name : String) (signatures : List Signature) : Member :=
  { name, kind := .method, signatures }

/-- The constructor, with its overloads. -/
def ofConstructor (signatures : List Signature) : Member :=
  { name := "constructor", kind := .constructor, signatures }

end Member

end Symbol

/-! ### Symbols -/

/-- **A symbol of module scope**. -/
structure Symbol where
  name : String
  kind : Symbol.Kind
  /-- The namespace that the symbol lives in. -/
  scope : Option String := none
  /-- The type of a global variable. -/
  type : Option ForeignType := none
  /-- The overloads of a function. -/
  signatures : List Symbol.Signature := []
  /-- What a class or an interface extends. -/
  parent : Option ForeignType := none
  /-- What a class or an interface declares. -/
  members : List Symbol.Member := []
  deriving DecidableEq, Repr

namespace Symbol

/-- A class that declares nothing. -/
def ofClass (name : String) : Symbol := { name, kind := .classType }

/-- An interface that declares nothing. -/
def ofInterface (name : String) : Symbol := { name, kind := .interfaceType }

/-- A global variable of a given type. -/
def ofGlobal (name : String) (type : ForeignType) : Symbol :=
  { name, kind := .global, type := some type }

/-- A function with its overloads. -/
def ofFunction (name : String) (signatures : List Signature) : Symbol :=
  { name, kind := .function, signatures }

/-- The same symbol, inside a namespace. -/
def within (symbol : Symbol) (scope : String) : Symbol := { symbol with scope := some scope }

/-- The same symbol, extending the type of a given name. -/
def extending (symbol : Symbol) (parent : String) : Symbol :=
  { symbol with parent := some (.named parent) }

/-- The same symbol with one more member, after those it has. -/
def withMember (symbol : Symbol) (member : Member) : Symbol :=
  { symbol with members := symbol.members ++ [member] }

end Symbol

end Bindery
