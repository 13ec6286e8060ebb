import Bindery.Proofs.Assembly.Shown
import Bindery.Proofs.Assembly.Knowledge

/-!
# What requests tell

A request may build several types, a parent before the types on top of it. All that is told on the
way is told of the members of these types, one type after the other
(`Bindery.Assembly.Context.Builds.exists_told`). What is told of the members of a type is read off
the symbol that it was built from (`Bindery.Assembly.Context.membersTold`).
-/

namespace Bindery.Assembly.Context

open Decl (TypeDecl)

variable {context : Context} {state state' : State context.table.size} {ref : context.Ref}
  {outcome : Except Failure TypeDecl} {type : TypeDecl}

/-- **The symbol that a type was built from**: the first class or interface of its name. -/
def original? (context : Context) (type : TypeDecl) : Option Symbol :=
  context.typeNamed? type.ident.foreign

/-- **What is told of the members of a type** while it is built on top of its parent. -/
def membersTold (context : Context) (type : TypeDecl) : List Diagnostic :=
  (context.original? type).elim [] fun symbol => (context.typeOn symbol type.parent?).shown.2

theorem original?_of_typeOn (hindexed : context.Indexed) (hfirst : context.IsFirst ref)
    {parent : Option TypeDecl}
    (htype : (context.typeOn (context.symbol ref) parent).outcome = .ok type) :
    context.original? type = some (context.symbol ref) := by
  rw [original?, ident_of_typeOn hindexed htype]
  exact hfirst.typeNamed?_eq

theorem membersTold_of_typeOn (hindexed : context.Indexed) (hfirst : context.IsFirst ref)
    {parent : Option TypeDecl}
    (htype : (context.typeOn (context.symbol ref) parent).outcome = .ok type) :
    context.membersTold type =
      (context.typeOn (context.symbol ref) parent).notes.report.diagnostics := by
  rw [membersTold, original?_of_typeOn hindexed hfirst htype, parent?_of_typeOn hindexed htype]
  rfl

/-- A state comes after another in which fewer types were built, and what was told in between was
told of the members of the others. -/
def Tells (context : Context) {n : ℕ} (state next : State n) (types : List TypeDecl) : Prop :=
  next.built.toList = state.built.toList ++ types ∧
    next.report.diagnostics = state.report.diagnostics ++ types.flatMap context.membersTold

theorem Tells.enter {next : State context.table.size} {types : List TypeDecl} {name : String}
    {notes : Notes context.table.size} (h : context.Tells state next types)
    (htold : context.membersTold type = notes.report.diagnostics) :
    context.Tells state ((next.take notes).enter name type) (types ++ [type]) := by
  constructor
  · change (next.built.push type).toList = _
    rw [Array.toList_push, h.1, List.append_assoc]
  · change (next.report.diagnostics ++ notes.report.diagnostics) ++ [] = _
    rw [h.2, List.append_nil, List.flatMap_append, List.flatMap_singleton, htold, List.append_assoc]

/-- **What a request tells** is told of the members of the types that it builds. -/
theorem Builds.exists_told (h : context.Builds state ref outcome state')
    (hindexed : context.Indexed) (hfirst : context.IsFirst ref) :
    ∃ types, context.Tells state state' types := by
  have hnone : ∀ {state : State context.table.size}, context.Tells state state [] := fun {state} =>
    ⟨(List.append_nil _).symm, (List.append_nil _).symm⟩
  induction h with
  | known => exact ⟨[], hnone⟩
  | denied => exact ⟨[], hnone⟩
  | unfit => exact ⟨[], hnone⟩
  -- all that is told is told for the sake of the parent
  | orphan _ _ hextends _ ih => exact ih (hextends.isFirst hindexed)
  | top _ _ _ htype => exact ⟨_, hnone.enter (membersTold_of_typeOn hindexed hfirst htype)⟩
  | child _ _ hextends _ htype ih =>
    obtain ⟨types, htypes⟩ := ih (hextends.isFirst hindexed)
    exact ⟨_, htypes.enter (membersTold_of_typeOn hindexed hfirst htype)⟩

end Bindery.Assembly.Context
