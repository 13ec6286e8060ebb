import Bindery.Symbol.Basic
import Std.Data.TreeMap

/-!
# Symbol tables

A **symbol table** is the symbols of a source unit in the order of their
declarations, with the names of the files they come from. A name may be declared
more than once; asked for a name, the table answers with the first declaration.

Names of types have an index of their own, so that a variable or a function does not
hide a type of the same name. `Bindery.SymbolTable.classify` says what a foreign type
means to the table: a primitive, a class or an interface of the table, or nothing that
could be rendered.

A symbol is handed around as its number in the table, which tells apart two
declarations that look the same.
-/

namespace Bindery

/-- **The symbols of a source unit**, with indexes of the first declarations. -/
structure SymbolTable where
  /-- The files that the symbols come from. -/
  sources : List String
  /-- The symbols, in the order of their declarations. -/
  symbols : Array Symbol
  /-- The first symbol of each name. -/
  byName : Std.TreeMap String (Fin symbols.size)
  /-- The first class or interface of each name. -/
  typeByName : Std.TreeMap String (Fin symbols.size)

/-- What a foreign type means, in a table of so many symbols. -/
inductive TypeClass (size : Nat) where
  | number
  | string
  | boolean
  | void
  /-- A class or an interface, declared by this symbol. -/
  | classLike (symbol : Fin size)
  /-- A type that has no rendering. -/
  | unrepresentable
  deriving DecidableEq, Repr

namespace SymbolTable

/-! ### Making a table -/

/-- The first of some symbols for each name, among those that count. -/
def indexFirst (symbols : Array Symbol) (counts : Symbol → Bool) :
    Std.TreeMap String (Fin symbols.size) :=
  (List.finRange symbols.size).foldl
    (fun index i => if counts symbols[i] then index.insertIfNew symbols[i].name i else index) ∅

/-- The table of these symbols. -/
def ofSymbols (sources : List String) (symbols : List Symbol) : SymbolTable :=
  let symbols := symbols.toArray
  { sources, symbols
    byName := indexFirst symbols fun _ => true
    typeByName := indexFirst symbols fun symbol => symbol.kind.isClassLike }

instance : Inhabited SymbolTable := ⟨ofSymbols [] []⟩

/-! ### Asking it -/

/-- The number of symbols. -/
abbrev size (table : SymbolTable) : Nat := table.symbols.size

/-- The first symbol of this name. -/
def lookup? (table : SymbolTable) (name : String) : Option (Fin table.size) :=
  table.byName[name]?

/-- The first class or interface of this name. -/
def lookupType? (table : SymbolTable) (name : String) : Option (Fin table.size) :=
  table.typeByName[name]?

/-- **What a foreign type means**. A name means a class or an interface or nothing. -/
def classify (table : SymbolTable) : ForeignType → TypeClass table.size
  | .number => .number
  | .string => .string
  | .boolean => .boolean
  | .void => .void
  | .named name =>
    match table.lookupType? name with
    | some symbol => .classLike symbol
    | none => .unrepresentable
  | .other _ => .unrepresentable

end SymbolTable

end Bindery
