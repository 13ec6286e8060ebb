import Bindery.Proofs.Decl.Dependencies
import Mathlib.Data.List.Perm.Basic
import Mathlib.Data.List.Forall2

/-!
# Declarations up to the order of their members

Two types are the same **up to reordering** if each of them, and each of their ancestors, differs
from the other only in the order of its fields, of its constructors and of its methods
(`Bindery.Decl.TypeDecl.Reordered`). Other declarations have no members to reorder
(`Bindery.Decl.Reordered`).

The order of members is not seen from outside: the key of a declaration and what it depends on
stay the same (`Bindery.Decl.Reordered.key?_eq`, `Bindery.Decl.Reordered.toList_dependencies_eq`).
-/

namespace Bindery.Decl

/-! ### Types -/

/-- **What a type declares itself, up to reordering.** -/
structure TypeBody.Reordered (body other : TypeBody) : Prop where
  ident_eq : body.ident = other.ident
  isAbstract_eq : body.isAbstract = other.isAbstract
  fields : body.fields.Perm other.fields
  constructors : body.constructors.Perm other.constructors
  methods : body.methods.Perm other.methods

theorem TypeBody.Reordered.declaresField_eq {body other : TypeBody} (h : body.Reordered other)
    (foreign : String) : body.declaresField foreign = other.declaresField foreign :=
  h.fields.any_eq

/-- **A type up to reordering**, with all that it inherits from. -/
structure TypeDecl.Reordered (type other : TypeDecl) : Prop where
  body : type.body.Reordered other.body
  ancestors : List.Forall₂ TypeBody.Reordered type.ancestors other.ancestors

namespace TypeDecl.Reordered

variable {type other : TypeDecl}

theorem chain (h : type.Reordered other) :
    List.Forall₂ TypeBody.Reordered type.chain other.chain :=
  .cons h.body h.ancestors

theorem key_eq (h : type.Reordered other) : type.key = other.key := by
  rw [key, key, ident, ident, h.body.ident_eq]

theorem parent? (h : type.Reordered other) :
    Option.Rel TypeDecl.Reordered type.parent? other.parent? := by
  obtain ⟨body, ancestors⟩ := type
  obtain ⟨body', ancestors'⟩ := other
  rcases h.ancestors with _ | ⟨hparent, hrest⟩
  · exact .none
  · exact .some ⟨hparent, hrest⟩

theorem declaresField_eq (h : type.Reordered other) (foreign : String) :
    type.declaresField foreign = other.declaresField foreign := by
  have hany : ∀ {bodies others : List TypeBody}, List.Forall₂ TypeBody.Reordered bodies others →
      bodies.any (·.declaresField foreign) = others.any (·.declaresField foreign) := by
    intro bodies others hall
    induction hall with
    | nil => rfl
    | cons hbody _ ih => rw [List.any_cons, List.any_cons, hbody.declaresField_eq, ih]
  exact hany h.chain

theorem extending {body body' : TypeBody} {parent parent' : Option TypeDecl}
    (h : body.Reordered body') (hparent : Option.Rel TypeDecl.Reordered parent parent') :
    (TypeDecl.extending body parent).Reordered (.extending body' parent') := by
  rcases hparent with hparent | _
  · exact ⟨h, hparent.chain⟩
  · exact ⟨h, .nil⟩

/-- **A reordered type mentions the same declarations**, perhaps in another order. -/
theorem references (h : type.Reordered other) : type.references.Perm other.references := by
  have hkeys : ∀ {parent above : Option TypeDecl}, Option.Rel TypeDecl.Reordered parent above →
      parent.map TypeDecl.key = above.map TypeDecl.key := by
    rintro _ _ (hparent | _)
    · exact congrArg some hparent.key_eq
    · rfl
  rw [TypeDecl.references, TypeDecl.references, hkeys h.parent?]
  exact (((List.Perm.refl _).append (h.body.fields.filterMap _)).append
    (h.body.constructors.flatMap_right _)).append (h.body.methods.flatMap_right _)

end TypeDecl.Reordered

/-! ### All declarations -/

/-- **A declaration up to reordering** the members of a type. -/
inductive Reordered : Decl → Decl → Prop
  | type {type other : TypeDecl} (h : type.Reordered other) : Reordered (.type type) (.type other)
  | refl (decl : Decl) : Reordered decl decl

/-- Sets with the same keys list them in the same order. -/
theorem toList_eq_of_mem_iff {keys others : Std.TreeSet Key}
    (h : ∀ key, key ∈ keys ↔ key ∈ others) : keys.toList = others.toList :=
  (Std.TreeSet.Equiv.of_forall_mem_iff h).toList_eq

namespace Reordered

variable {decl other : Decl}

theorem key?_eq (h : decl.Reordered other) : decl.key? = other.key? := by
  cases h with
  | type h => exact congrArg some h.key_eq
  | refl => rfl

theorem mem_dependencies_iff (h : decl.Reordered other) (key : Key) :
    key ∈ decl.dependencies ↔ key ∈ other.dependencies := by
  cases h with
  | type h =>
    change key ∈ TypeDecl.dependencies _ ↔ key ∈ TypeDecl.dependencies _
    rw [TypeDecl.mem_dependencies, TypeDecl.mem_dependencies, h.key_eq, h.references.mem_iff]
  | refl => exact Iff.rfl

theorem toList_dependencies_eq (h : decl.Reordered other) :
    decl.dependencies.toList = other.dependencies.toList :=
  toList_eq_of_mem_iff h.mem_dependencies_iff

end Reordered

end Bindery.Decl
