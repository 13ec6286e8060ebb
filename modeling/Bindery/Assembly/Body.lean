import Bindery.Assembly.Resolution

/-!
# Globals, functions, and what a type declares

A symbol that is a global variable or a function becomes a declaration by itself
(`Bindery.Assembly.Context.global`, `Bindery.Assembly.Context.function`). A class or an
interface is built on top of its parent, which has to be there first:
`Bindery.Assembly.Context.typeOn` goes through the members of the symbol.

* A **field** is left out if the configuration says so, and passed over if the parent or
  an earlier member declares a field of its name.
* A **method** has as many signatures as it has overloads whose types can be resolved.
* The **constructors** of an interface do not count. A class whose own overloads all
  fail, or that has none, takes over those of its parent; one without a parent to take
  them from can be made without any arguments.
-/

namespace Bindery.Assembly.Context

open Decl (Constructor Field TypeBody TypeDecl)

/-! ### Globals and functions -/

/-- A global variable. -/
def global (context : Context) (symbol : Symbol) : context.Attempt Decl.Global := do
  if context.denies symbol then Attempt.fail (.refused symbol.name .denied)
  else
    let type ← context.resolveDeclared symbol.type
    Attempt.tell (.debug ("variable " ++ symbol.name ++ ": " ++ type.name))
    return ⟨context.ident symbol.name, type⟩

/-- The overloads of a function. -/
def function (context : Context) (symbol : Symbol) : context.Attempt (List Decl.Signature) := do
  if context.denies symbol then Attempt.fail (.refused symbol.name .denied)
  else
    let built ← overloads "overload" symbol.name (context.signature symbol.name none) 0
      symbol.signatures
    Attempt.tell (.debug ("function " ++ symbol.name ++ ": " ++ toString built.length ++
      " overload(s)"))
    return built

/-! ### Members -/

/-- What was built of the members of a type. -/
structure Members where
  fields : List Field := []
  constructors : List Constructor := []
  methods : List Decl.Signature := []
  deriving DecidableEq, Repr

/-- A member in words, as the configuration names it. -/
def memberName (owner : Symbol) (member : Symbol.Member) : String :=
  "`" ++ Config.qualified owner.name member.name ++ "`"

/-- The constructors that a member declares. -/
def constructors (context : Context) (owner : Symbol) (member : Symbol.Member) :
    context.Attempt (List Constructor) := do
  if owner.kind = .interfaceType then
    Attempt.tell (.debug (owner.name ++ ": ignoring constructor of an interface"))
    return []
  else
    overloads "constructor" owner.name
      (fun _ signature => return ⟨context.ident owner.name, ← context.params signature.params⟩) 0
      member.signatures

/-- The field that a member declares, if it is not declared already. -/
def field (context : Context) (owner : Symbol) (declared : String → Bool)
    (member : Symbol.Member) : context.Attempt (Option Field) := do
  if context.config.deniesMember owner.name member.name then
    Attempt.tell (.skipped ("skipping denylisted field " ++ memberName owner member))
    return none
  else if declared member.name then return none
  else
    let built : context.Attempt Field :=
      return ⟨context.ident member.name, ← context.resolveDeclared member.type⟩
    built.recover ("field " ++ memberName owner member)

/-- The methods that a member declares. -/
def methods (context : Context) (owner : Symbol) (member : Symbol.Member) :
    context.Attempt (List Decl.Signature) := do
  if context.config.deniesMember owner.name member.name then
    Attempt.tell (.skipped ("skipping denylisted method " ++ memberName owner member))
    return []
  else
    overloads "overload" (Config.qualified owner.name member.name)
      (context.signature member.name (some (context.ident owner.name))) 0 member.signatures

/-- The members built so far with one more. A field is declared already if the parent
declares it or if it is among those built so far. -/
def addMember (context : Context) (owner : Symbol) (parent : Option TypeDecl)
    (built : Members) (member : Symbol.Member) : context.Attempt Members := do
  match member.kind with
  | .constructor =>
    let more ← context.constructors owner member
    return { built with constructors := built.constructors ++ more }
  | .field =>
    let declared (foreign : String) : Bool :=
      parent.any (·.declaresField foreign) || built.fields.any (·.ident.foreign = foreign)
    let more ← context.field owner declared member
    return { built with fields := built.fields ++ more.toList }
  | .method =>
    let more ← context.methods owner member
    return { built with methods := built.methods ++ more }
  | .other =>
    Attempt.tell (.skipped ("skipping " ++ memberName owner member ++
      ": unrecognized member kind"))
    return built

/-! ### Types -/

/-- The constructors of a type, given those that it declares itself. -/
def allConstructors (ident : Ident) (isAbstract : Bool) (parent : Option TypeDecl)
    (own : List Constructor) : List Constructor :=
  if isAbstract ∨ own ≠ [] then own
  else
    match (parent.map (·.body.constructors)).getD [] with
    | [] => [⟨ident, []⟩]
    | inherited => inherited.map (·.retarget ident)

/-- **The type that a symbol declares** on top of its parent. -/
def typeOn (context : Context) (symbol : Symbol) (parent : Option TypeDecl) :
    context.Attempt TypeDecl := do
  let built ← symbol.members.foldlM (context.addMember symbol parent) {}
  let ident := context.ident symbol.name
  let isAbstract : Bool := symbol.kind = .interfaceType
  let body : TypeBody :=
    { ident, isAbstract
      fields := built.fields
      constructors := allConstructors ident isAbstract parent built.constructors
      methods := built.methods }
  return .extending body parent

end Bindery.Assembly.Context
