/-!
# What can go wrong

A `Bindery.Failure` is the reason why something was not produced. Two kinds only
concern one declaration or one member, and the run goes on without it
(`Bindery.Failure.isRecoverable`): a type with no rendering, and a declaration
that is refused. The others concern the run as a whole.
-/

namespace Bindery

/-- Why a declaration is refused. -/
inductive Refusal where
  /-- The configuration leaves it out. -/
  | denied
  /-- An earlier attempt to build it failed. -/
  | unbuildable
  /-- It is needed for its own construction. -/
  | underConstruction
  /-- What it extends, spelled as given, is neither a class nor an interface. -/
  | unfitParent (type : String)
  /-- A reason in the caller's words. -/
  | stated (reason : String)
  deriving DecidableEq, Repr

namespace Refusal

/-- The reason in words. -/
def message : Refusal → String
  | denied => "denylisted"
  | unbuildable => "previously unbuildable"
  | underConstruction => "still under construction; inheritance is recursive"
  | unfitParent type => "parent `" ++ type ++ "` is not a class or interface"
  | stated reason => reason

end Refusal

/-- **What can go wrong**. -/
inductive Failure where
  /-- A type has no rendering. -/
  | unrepresentable (type : String)
  /-- A declaration is refused. -/
  | refused (name : String) (reason : Refusal)
  /-- A symbol table cannot be read. -/
  | load (path message : String)
  /-- The bindings cannot be written. -/
  | output (message : String)
  deriving DecidableEq, Repr

namespace Failure

/-- The failure in words. -/
def message : Failure → String
  | unrepresentable type => "unrepresentable type `" ++ type ++ "`"
  | refused name reason => "refused `" ++ name ++ "`: " ++ reason.message
  | load path message => "failed to load symbol table " ++ path ++ ": " ++ message
  | output message => message

/-- Whether the run can go on without what failed. -/
def isRecoverable : Failure → Bool
  | unrepresentable _ | refused _ _ => true
  | load _ _ | output _ => false

end Failure

end Bindery
