import Bindery.Assembly.Attempt
import Bindery.Decl.Basic
import Bindery.Symbol.Table

/-!
# From foreign types to declared ones

To build a declaration is first of all to **resolve** the types that its symbol
mentions (`Bindery.Assembly.Context.resolve`). A type is resolved through the symbol
table alone: whether a class or an interface can be built does not matter to those who
refer to it. The type is only noted as met.

The overloads of a function, a method or a constructor are resolved one by one
(`Bindery.Assembly.overloads`). One that mentions a type without a rendering is left
out, and the others keep the numbers that they have among all of them.
-/

namespace Bindery.Assembly

open Decl (Global Parameter Primitive TypeRef)

/-- **What a build looks things up in**. -/
structure Context where
  table : SymbolTable
  config : Config

namespace Context

/-- A symbol of the table, as its number. -/
abbrev Ref (context : Context) : Type := Fin context.table.size

/-- An attempt in which symbols of the table are met. -/
abbrev Attempt (context : Context) (α : Type) : Type := Assembly.Attempt context.table.size α

/-- The symbol with this number. -/
def symbol (context : Context) (ref : context.Ref) : Symbol := context.table.symbols[ref]

/-- The identifier for a foreign name. -/
def ident (context : Context) (foreign : String) : Ident :=
  .ofForeign context.config.reserved foreign

/-- Whether a symbol is left out by the configuration. -/
def denies (context : Context) (symbol : Symbol) : Bool :=
  context.config.denies symbol.scope symbol.name

/-! ### Types -/

/-- **The declared type of a foreign one**. -/
def resolve (context : Context) (type : ForeignType) : context.Attempt TypeRef :=
  match context.table.classify type with
  | .number => return .primitive .number
  | .string => return .primitive .string
  | .boolean => return .primitive .boolean
  | .void => return .primitive .void
  | .classLike ref => do
    Attempt.meet ref
    return .declared (context.ident (context.symbol ref).name)
  | .unrepresentable => Attempt.fail (.unrepresentable type.text)

/-- The declared type of something whose type may be missing. -/
def resolveDeclared (context : Context) : Option ForeignType → context.Attempt TypeRef
  | some type => context.resolve type
  | none => Attempt.fail (.unrepresentable "<missing>")

/-! ### Signatures -/

/-- The parameters of a signature. -/
def params (context : Context) : List Symbol.Param → context.Attempt (List Parameter)
  | [] => return []
  | param :: rest => do
    let type ← context.resolve param.type
    let rest ← context.params rest
    return ⟨context.ident param.name, type⟩ :: rest

/-- One overload of a function, or of a method of this owner. -/
def signature (context : Context) (name : String) (owner : Option Ident) (overload : Nat)
    (signature : Symbol.Signature) : context.Attempt Decl.Signature := do
  let params ← context.params signature.params
  let returns ← context.resolve signature.returns
  return { ident := context.ident name, params, returns, owner, overload }

end Context

/-- An overload in words: what it is, its number, and whose it is. -/
def overloadName (kind : String) (number : Nat) (owner : String) : String :=
  kind ++ " #" ++ toString number ++ " of `" ++ owner ++ "`"

/-- **Overloads, one by one**, numbered from here on. -/
def overloads {n : Nat} {α : Type} (kind owner : String)
    (build : Nat → Symbol.Signature → Attempt n α) (number : Nat) :
    List Symbol.Signature → Attempt n (List α)
  | [] => return []
  | signature :: rest => do
    let built ← (build number signature).recover (overloadName kind number owner)
    let rest ← overloads kind owner build (number + 1) rest
    return built.toList ++ rest

end Bindery.Assembly
