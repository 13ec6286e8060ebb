import Bindery.Proofs.Assembly.Members
import Bindery.Proofs.Decl.Reordering

/-!
# The order of members

Members do not get in each other's way, unless they are fields of the same name: of those the
first that can be built counts. So a list of members may be **rearranged**
(`Bindery.Symbol.Member.Rearranged`) in any way that keeps the fields of each name in order. Such a
list comes about by swapping neighbours that are not fields of the same name
(`Bindery.Symbol.Member.Rearranged.swaps`), and a swap of these changes neither what the members
add nor what is told of them, except for the order
(`Bindery.Assembly.Context.Gathers.swaps`).

In the end a type whose members are rearranged is the same type, up to reordering
(`Bindery.Assembly.Context.typeOn_rearranged`).
-/

namespace Bindery

/-! ### Lists of members -/

namespace Symbol.Member

variable {member other : Member} {members others : List Member} {name : String}

/-- A member is a field of this name. -/
def isFieldOf (name : String) (member : Member) : Bool := member.kind = .field && member.name = name

/-- Two members are fields of the same name. -/
def SameField (member other : Member) : Prop :=
  member.kind = .field ∧ other.kind = .field ∧ member.name = other.name

theorem isFieldOf_iff :
    member.isFieldOf name = true ↔ member.kind = .field ∧ member.name = name := by
  rw [isFieldOf, Bool.and_eq_true, decide_eq_true_iff, decide_eq_true_iff]

/-- **The same members in another order**, in which the fields of each name come in the same
order. -/
structure Rearranged (members others : List Member) : Prop where
  perm : members.Perm others
  fields_eq : ∀ name, members.filter (isFieldOf name) = others.filter (isFieldOf name)

/-- **Members that change places** one after the other, where no two fields of the same name do. -/
inductive Swaps : List Member → List Member → Prop
  | nil : Swaps [] []
  | cons (member : Member) {members others : List Member} (h : Swaps members others) :
    Swaps (member :: members) (member :: others)
  | swap {member other : Member} (members : List Member) (h : ¬ SameField member other) :
    Swaps (member :: other :: members) (other :: member :: members)
  | trans {members others last : List Member} (h : Swaps members others)
    (h' : Swaps others last) : Swaps members last

namespace Swaps

theorem refl (members : List Member) : Swaps members members := by
  induction members with
  | nil => exact .nil
  | cons member members ih => exact .cons member ih

/-- A member moves behind others. -/
theorem moveBack {before : List Member} (after : List Member)
    (h : ∀ other ∈ before, ¬ SameField member other) :
    Swaps (member :: (before ++ after)) (before ++ member :: after) := by
  induction before with
  | nil => exact refl _
  | cons other before ih =>
    exact (Swaps.swap _ (h other List.mem_cons_self)).trans
      (.cons other (ih fun last hlast => h last (List.mem_cons_of_mem _ hlast)))

end Swaps

/-- The first of some members stands in their rearrangement, and no field of its name before it. -/
theorem Rearranged.exists_split (h : Rearranged (member :: members) others) :
    ∃ before after, others = before ++ member :: after ∧
      ∀ other ∈ before, ¬ SameField member other := by
  by_cases hfield : member.kind = .field
  · have hself : member.isFieldOf member.name = true := isFieldOf_iff.mpr ⟨hfield, rfl⟩
    have heq := h.fields_eq member.name
    rw [List.filter_cons_of_pos hself] at heq
    obtain ⟨before, after, hsplit, hbefore, -⟩ := List.filter_eq_cons_iff.mp heq.symm
    refine ⟨before, after, hsplit, fun other hother hsame => hbefore other hother ?_⟩
    exact isFieldOf_iff.mpr ⟨hsame.2.1, hsame.2.2.symm⟩
  · obtain ⟨before, after, hsplit⟩ := List.append_of_mem (h.perm.mem_iff.mp List.mem_cons_self)
    exact ⟨before, after, hsplit, fun other _ hsame => hfield hsame.1⟩

/-- **What is rearranged comes about by swaps.** -/
theorem Rearranged.swaps (h : Rearranged members others) : Swaps members others := by
  induction members generalizing others with
  | nil =>
    rw [List.nil_perm.mp h.perm]
    exact .nil
  | cons member members ih =>
    obtain ⟨before, after, rfl, hbefore⟩ := h.exists_split
    refine (Swaps.cons member (ih ⟨?_, fun name => ?_⟩)).trans (.moveBack after hbefore)
    · exact (h.perm.trans List.perm_middle).cons_inv
    · have heq := h.fields_eq name
      rw [List.filter_append] at heq ⊢
      by_cases hname : member.isFieldOf name = true
      · -- no field of this name stands before the member
        have hnil : before.filter (isFieldOf name) = [] := by
          refine List.filter_eq_nil_iff.mpr fun other hother hother' => hbefore other hother ?_
          obtain ⟨hkind, hmember⟩ := isFieldOf_iff.mp hname
          obtain ⟨hkind', hmember'⟩ := isFieldOf_iff.mp hother'
          exact ⟨hkind, hkind', hmember.trans hmember'.symm⟩
        rw [List.filter_cons_of_pos hname, List.filter_cons_of_pos hname, hnil] at heq
        rw [hnil]
        exact List.cons.inj heq |>.2
      · rw [List.filter_cons_of_neg hname, List.filter_cons_of_neg hname] at heq
        exact heq

end Symbol.Member

/-- **The same symbol with its members rearranged.** -/
structure Symbol.Rearranged (symbol other : Symbol) : Prop where
  eq_with : other = { symbol with members := other.members }
  members : Member.Rearranged symbol.members other.members

namespace Assembly.Context

open Decl (Constructor Field TypeBody TypeDecl)
open Symbol.Member (SameField Swaps Rearranged)

variable {context : Context} {owner : Symbol} {parent parent' : Option TypeDecl}
  {built built' more : Members} {member other : Symbol.Member} {told : List Diagnostic}

/-! ### What members come to -/

/-- **Built members up to order.** -/
structure Members.Reordered (built built' : Members) : Prop where
  fields : built.fields.Perm built'.fields
  constructors : built.constructors.Perm built'.constructors
  methods : built.methods.Perm built'.methods

namespace Members.Reordered

theorem refl (built : Members) : built.Reordered built := ⟨.refl _, .refl _, .refl _⟩

theorem trans {last : Members} (h : built.Reordered built') (h' : built'.Reordered last) :
    built.Reordered last :=
  ⟨h.fields.trans h'.fields, h.constructors.trans h'.constructors, h.methods.trans h'.methods⟩

theorem append (h : built.Reordered built') (more : Members) :
    (built ++ more).Reordered (built' ++ more) :=
  ⟨h.fields.append_right _, h.constructors.append_right _, h.methods.append_right _⟩

/-- What two members add is the same in both orders. -/
theorem append_append (h : built.Reordered built') (more last : Members) :
    (built ++ more ++ last).Reordered (built' ++ last ++ more) := by
  have hswap : ∀ {α : Type} {items items' : List α} (a b : List α), items.Perm items' →
      (items ++ a ++ b).Perm (items' ++ b ++ a) := by
    intro α items items' a b hperm
    rw [List.append_assoc, List.append_assoc]
    exact hperm.append List.perm_append_comm
  exact ⟨hswap _ _ h.fields, hswap _ _ h.constructors, hswap _ _ h.methods⟩

end Members.Reordered

/-- Two parents declare the same fields. -/
def SameFields (parent parent' : Option TypeDecl) : Prop :=
  ∀ foreign, parent.any (·.declaresField foreign) = parent'.any (·.declaresField foreign)

theorem isDeclared_eq (hparent : SameFields parent parent') (h : built.Reordered built')
    (member : Symbol.Member) :
    isDeclared parent built member = isDeclared parent' built' member := by
  rw [isDeclared, isDeclared, hparent, h.fields.any_eq]

/-- What a member adds does not declare another, if the two are not fields of the same name. -/
theorem isDeclared_append (hne : ¬ SameField member other)
    (hmore : ∀ field ∈ more.fields, member.kind = .field ∧ field.ident.foreign = member.name) :
    isDeclared parent (built ++ more) other = isDeclared parent built other := by
  by_cases hkind : other.kind = .field
  · have hnone : more.fields.any (·.ident.foreign = other.name) = false := by
      rw [List.any_eq_false]
      intro field hfield hname
      obtain ⟨hfield, hforeign⟩ := hmore field hfield
      exact hne ⟨hfield, hkind, hforeign.symm.trans (of_decide_eq_true hname)⟩
    rw [isDeclared, isDeclared, Members.fields_append, List.any_append, hnone, Bool.or_false]
  · rw [isDeclared, isDeclared, decide_eq_false hkind, Bool.false_and, Bool.false_and]

/-- The same members come to the same, up to order, on top of what is the same up to order. -/
theorem Gathers.congr {members : List Symbol.Member} {last : Members}
    (h : context.Gathers owner parent built members last told)
    (hparent : SameFields parent parent') (hbuilt : built.Reordered built') :
    ∃ last', context.Gathers owner parent' built' members last' told ∧ last.Reordered last' := by
  induction h generalizing built' with
  | nil => exact ⟨built', .nil built', hbuilt⟩
  | cons hgain _ ih =>
    rw [isDeclared_eq hparent hbuilt] at hgain
    obtain ⟨last', hrest, hlast⟩ := ih (hbuilt.append _)
    exact ⟨last', .cons hgain hrest, hlast⟩

/-- **Swapped members come to the same**, up to order, and so does what is told of them. -/
theorem Gathers.swaps {members others : List Symbol.Member} {last : Members}
    (h : context.Gathers owner parent built members last told) (hindexed : context.Indexed)
    (hswaps : Swaps members others) (hparent : SameFields parent parent')
    (hbuilt : built.Reordered built') :
    ∃ last' told', context.Gathers owner parent' built' others last' told' ∧
      last.Reordered last' ∧ told.Perm told' := by
  induction hswaps generalizing built built' parent parent' last told with
  | nil =>
    cases h
    exact ⟨built', [], .nil built', hbuilt, .refl _⟩
  | cons member hswaps ih =>
    obtain _ | ⟨hgain, hrest⟩ := h
    rw [isDeclared_eq hparent hbuilt] at hgain
    obtain ⟨last', rest', hrest', hlast, hperm⟩ := ih hrest hparent (hbuilt.append _)
    exact ⟨last', _, .cons hgain hrest', hlast, hperm.append_left _⟩
  | @swap member other members hne =>
    obtain _ | @⟨_, more, _, _, _, told, _, hgain, h⟩ := h
    obtain _ | @⟨_, more', _, _, _, told', rest, hgain', hrest⟩ := h
    -- neither of the two declares the other, so both add the same when they change places
    rw [isDeclared_append hne (fields_of_gain hindexed hgain),
      isDeclared_eq hparent hbuilt] at hgain'
    rw [isDeclared_eq hparent hbuilt, ← isDeclared_append (fun h => hne ⟨h.2.1, h.1, h.2.2.symm⟩)
      (fields_of_gain hindexed hgain')] at hgain
    obtain ⟨last', hrest', hlast⟩ := hrest.congr hparent (hbuilt.append_append more more')
    refine ⟨last', _, .cons hgain' (.cons hgain hrest'), hlast, ?_⟩
    rw [← List.append_assoc, ← List.append_assoc]
    exact List.perm_append_comm.append_right rest
  | trans _ _ ih ih' =>
    obtain ⟨last', told', h', hlast, hperm⟩ := ih h hparent hbuilt
    obtain ⟨last'', told'', h'', hlast', hperm'⟩ := ih' h' (fun _ => rfl) (.refl built')
    exact ⟨last'', told'', h'', hlast.trans hlast', hperm.trans hperm'⟩

/-! ### Types -/

theorem SameFields.of_rel (h : Option.Rel TypeDecl.Reordered parent parent') :
    SameFields parent parent' := by
  rcases h with h | _
  · exact h.declaresField_eq
  · exact fun _ => rfl

/-- The constructors of a type do not depend on the order in which they are declared, nor on that
of the parent. -/
theorem perm_allConstructors {ident : Ident} {isAbstract : Bool} {own own' : List Constructor}
    (hparent : Option.Rel TypeDecl.Reordered parent parent') (hown : own.Perm own') :
    (allConstructors ident isAbstract parent own).Perm
      (allConstructors ident isAbstract parent' own') := by
  have hinherited : ((parent.map (·.body.constructors)).getD []).Perm
      ((parent'.map (·.body.constructors)).getD []) := by
    rcases hparent with h | _
    · exact h.body.constructors
    · exact .refl _
  have hnil : own = [] ↔ own' = [] := by
    rw [← List.length_eq_zero_iff, ← List.length_eq_zero_iff, hown.length_eq]
  rw [allConstructors, allConstructors]
  simp only [ne_eq, hnil]
  split
  · exact hown
  · generalize (parent.map (·.body.constructors)).getD [] = inherited at hinherited
    generalize (parent'.map (·.body.constructors)).getD [] = inherited' at hinherited
    cases inherited with
    | nil => rw [List.nil_perm.mp hinherited]
    | cons constructor inherited =>
      cases inherited' with
      | nil => exact absurd hinherited.length_eq (Nat.succ_ne_zero _)
      | cons constructor' inherited' => exact hinherited.map _

/-- **A type whose members are rearranged** is the same type up to reordering, if its parent is,
and the same is told of it, in some order. -/
theorem typeOn_rearranged {symbol other : Symbol} (hindexed : context.Indexed)
    (h : symbol.Rearranged other) (hparent : Option.Rel TypeDecl.Reordered parent parent') :
    ∃ type type' told told', (context.typeOn symbol parent).shown = (.ok type, told) ∧
      (context.typeOn other parent').shown = (.ok type', told') ∧
      type.Reordered type' ∧ told.Perm told' := by
  obtain ⟨last, told, hgathers⟩ := exists_gathers hindexed symbol parent {} symbol.members
  obtain ⟨last', told', hgathers', hlast, htold⟩ :=
    hgathers.swaps hindexed h.members.swaps (.of_rel hparent) (.refl {})
  have hgathers' : context.Gathers other parent' {} other.members last' told' :=
    h.eq_with.symm ▸ hgathers'.of_owner other.members
  refine ⟨_, _, told, told', shown_typeOn_eq hgathers, shown_typeOn_eq hgathers', ?_, htold⟩
  have hbody : context.body other parent' last' = context.body symbol parent' last' := by
    rw [h.eq_with]
    rfl
  rw [hbody]
  exact .extending ⟨rfl, rfl, hlast.fields, perm_allConstructors hparent hlast.constructors,
    hlast.methods⟩ hparent

end Assembly.Context

end Bindery
