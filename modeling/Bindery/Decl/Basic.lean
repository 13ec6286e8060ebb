import Bindery.Decl.Key
import Bindery.Ident

/-!
# Declarations

The bindings are a list of declarations. Those that stand on their own have a key
(`Bindery.Decl.key?`): global variables, overloads of functions, and types. The others
occur only inside of these, as parameters, fields, constructors and methods.

A **type** (`Bindery.Decl.TypeDecl`) is a class or an interface together with all that
it inherits from: its own body comes with the bodies of its ancestors, the parent
first. What an ancestor declares is thus at hand without looking anything up.
-/

namespace Bindery.Decl

/-! ### References to types -/

/-- The primitive types. -/
inductive Primitive where
  | number
  | string
  | boolean
  | void
  deriving DecidableEq, Repr

/-- The name of a primitive type in the bindings. -/
def Primitive.name : Primitive → String
  | number => "float"
  | string => "cstring"
  | boolean => "bool"
  | void => "void"

/-- The type of a field, a parameter, a result or a variable. -/
inductive TypeRef where
  | primitive (type : Primitive)
  /-- A type that is declared elsewhere. -/
  | declared (ident : Ident)
  deriving DecidableEq, Repr

namespace TypeRef

/-- The name of the type in the bindings. -/
def name : TypeRef → String
  | primitive type => type.name
  | declared ident => ident.name

/-- The declaration that the reference needs, if any. -/
def key? : TypeRef → Option Key
  | primitive _ => none
  | declared ident => some (.type ident.foreign)

/-- Whether there is no value of the type. -/
def isVoid (ref : TypeRef) : Bool := ref = .primitive .void

end TypeRef

/-! ### The parts of declarations -/

/-- A parameter of a signature or a constructor. -/
structure Parameter where
  ident : Ident
  type : TypeRef
  deriving DecidableEq, Repr

/-- A variable of module scope. -/
structure Global where
  ident : Ident
  type : TypeRef
  deriving DecidableEq, Repr

/-- A field of a type. -/
structure Field where
  ident : Ident
  type : TypeRef
  deriving DecidableEq, Repr

/-- One overload of a function, or of a method if there is an owner. -/
structure Signature where
  ident : Ident
  params : List Parameter
  returns : TypeRef
  owner : Option Ident
  /-- The number of the signature among the overloads of the same function. -/
  overload : Nat
  deriving DecidableEq, Repr

/-- A way to make a value of a type. -/
structure Constructor where
  owner : Ident
  params : List Parameter
  deriving DecidableEq, Repr

namespace Constructor

/-- The name of the constructor in the bindings. -/
def name (constructor : Constructor) : String := "new" ++ constructor.owner.name

/-- The same parameters, making a value of another type. -/
def retarget (constructor : Constructor) (owner : Ident) : Constructor :=
  { constructor with owner }

end Constructor

/-- What a class or an interface declares itself. -/
structure TypeBody where
  ident : Ident
  /-- Whether it is an interface. -/
  isAbstract : Bool
  fields : List Field
  constructors : List Constructor
  methods : List Signature
  deriving DecidableEq, Repr

/-- Whether a body declares a field of this foreign name. -/
def TypeBody.declaresField (body : TypeBody) (foreign : String) : Bool :=
  body.fields.any fun field => field.ident.foreign = foreign

/-- **A class or an interface** with all that it inherits from. -/
structure TypeDecl where
  body : TypeBody
  /-- What it inherits from: its parent, the parent of that, and so on. -/
  ancestors : List TypeBody
  deriving DecidableEq, Repr

namespace TypeDecl

/-- The identifier of a type. -/
abbrev ident (type : TypeDecl) : Ident := type.body.ident

/-- The key of a type. -/
def key (type : TypeDecl) : Key := .type type.ident.foreign

/-- The type together with its ancestors, itself first. -/
def chain (type : TypeDecl) : List TypeBody := type.body :: type.ancestors

/-- The type that it inherits from, if any. -/
def parent? (type : TypeDecl) : Option TypeDecl :=
  match type.ancestors with
  | [] => none
  | parent :: ancestors => some ⟨parent, ancestors⟩

/-- A body that inherits from a type, or from nothing. -/
def extending (body : TypeBody) : Option TypeDecl → TypeDecl
  | none => ⟨body, []⟩
  | some parent => ⟨body, parent.chain⟩

/-- Whether a type or one of its ancestors declares a field of this foreign name. -/
def declaresField (type : TypeDecl) (foreign : String) : Bool :=
  type.chain.any fun body => body.declaresField foreign

end TypeDecl

end Decl

/-! ### Declarations -/

/-- **A declaration**, on its own or as part of another. -/
inductive Decl where
  | primitive (type : Decl.Primitive)
  | global (global : Decl.Global)
  | parameter (parameter : Decl.Parameter)
  | field (field : Decl.Field)
  | signature (signature : Decl.Signature)
  | constructor (constructor : Decl.Constructor)
  | type (type : Decl.TypeDecl)
  deriving DecidableEq, Repr

namespace Decl

/-- The name of a declaration in the bindings. -/
def name : Decl → String
  | primitive p => p.name
  | global g => g.ident.name
  | parameter p => p.ident.name
  | field f => f.ident.name
  | signature s => s.ident.name
  | constructor c => c.name
  | type t => t.ident.name

/-- The key of a signature that stands on its own. A method belongs to its owner. -/
def Signature.key? (signature : Signature) : Option Key :=
  match signature.owner with
  | some _ => none
  | none => some (.function signature.ident.foreign signature.overload)

/-- **The key of a declaration** that stands on its own. -/
def key? : Decl → Option Key
  | global g => some (.global g.ident.foreign)
  | signature s => s.key?
  | type t => some t.key
  | primitive _ | parameter _ | field _ | constructor _ => none

/-! ### Dependencies -/

/-- The declarations that parameters need. -/
def paramKeys (params : List Parameter) : List Key := params.filterMap (·.type.key?)

/-- The declarations that a signature needs, in the order in which they are
mentioned. -/
def Signature.references (signature : Signature) : List Key :=
  paramKeys signature.params ++ signature.returns.key?.toList

/-- The declarations that a type mentions, itself perhaps among them. -/
def TypeDecl.references (type : TypeDecl) : List Key :=
  (type.parent?.map TypeDecl.key).toList ++ type.body.fields.filterMap (·.type.key?) ++
    type.body.constructors.flatMap (paramKeys ·.params) ++
    type.body.methods.flatMap Signature.references

/-- The declarations that a type needs. It may mention itself freely. -/
def TypeDecl.dependencies (type : TypeDecl) : Std.TreeSet Key :=
  (Std.TreeSet.ofList type.references).erase type.key

/-- **What must be declared before a declaration**. -/
def dependencies : Decl → Std.TreeSet Key
  | primitive _ => ∅
  | global g => .ofList g.type.key?.toList
  | parameter p => .ofList p.type.key?.toList
  | field f => .ofList f.type.key?.toList
  | signature s => .ofList s.references
  | constructor c => .ofList (paramKeys c.params)
  | type t => t.dependencies

end Decl

end Bindery
