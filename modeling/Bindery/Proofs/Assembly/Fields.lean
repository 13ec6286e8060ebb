import Bindery.Proofs.Assembly.Ascent

/-!
# A type and its ancestors share no fields

A member only becomes a field if neither the parent declares one of its name nor an earlier member
does. So the fields of a type and of all its ancestors have different foreign names, and each of
them bears the identifier of its foreign name
(`Bindery.Assembly.Context.Declares.distinctFields`).
-/

namespace Bindery

open Decl (Field TypeBody TypeDecl)

/-- **The fields of a type and of its ancestors**, its own first. -/
def Decl.TypeDecl.allFields (type : TypeDecl) : List Field := type.chain.flatMap (·.fields)

theorem Decl.TypeDecl.declaresField_iff {type : TypeDecl} {foreign : String} :
    type.declaresField foreign = true ↔ foreign ∈ type.allFields.map (·.ident.foreign) := by
  simp only [declaresField, TypeBody.declaresField, List.any_eq_true, decide_eq_true_eq, allFields,
    List.mem_map, List.mem_flatMap]
  constructor
  · rintro ⟨body, hbody, field, hfield, hname⟩
    exact ⟨field, ⟨body, hbody, hfield⟩, hname⟩
  · rintro ⟨field, ⟨body, hbody, hfield⟩, hname⟩
    exact ⟨body, hbody, field, hfield, hname⟩

namespace Assembly.Context

open Attempt (Runs never)

variable {context : Context} {owner : Symbol} {parent : Option TypeDecl} {built : Members}
  {member : Symbol.Member} {type : TypeDecl} {fields inherited : List Field} {field : Field}
  {ref : context.Ref}

/-! ### Fields with different names -/

/-- **Fields are distinct**: no two have the same foreign name, and each bears the identifier of its
own. -/
structure DistinctFields (context : Context) (fields : List Field) : Prop where
  nodup : (fields.map (·.ident.foreign)).Nodup
  ident_eq : ∀ field ∈ fields, field.ident = context.ident field.ident.foreign

theorem DistinctFields.nil : context.DistinctFields [] :=
  ⟨.nil, fun _ hmem => absurd hmem List.not_mem_nil⟩

/-- A field of a new name is added to those that are there and those that are inherited. -/
theorem DistinctFields.add (h : context.DistinctFields (fields ++ inherited)) {foreign : String}
    (hident : field.ident = context.ident foreign)
    (hnew : foreign ∉ (fields ++ inherited).map (·.ident.foreign)) :
    context.DistinctFields ((fields ++ [field]) ++ inherited) := by
  have hforeign : field.ident.foreign = foreign := by rw [hident]; rfl
  constructor
  · rw [List.append_assoc, List.singleton_append, List.map_append, List.map_cons,
      List.nodup_middle, ← List.map_append, hforeign]
    exact List.nodup_cons.mpr ⟨hnew, h.nodup⟩
  · intro other hmem
    rw [List.append_assoc, List.singleton_append] at hmem
    rcases List.mem_cons.mp (List.perm_middle.subset hmem) with rfl | hmem
    · rw [hforeign, hident]
    · exact h.ident_eq other hmem

/-! ### Members -/

/-- What a type inherits, if it has a parent. -/
def inheritedFields (parent : Option TypeDecl) : List Field := parent.elim [] (·.allFields)

/-- A field is built only if its name is new, and it bears the identifier of this name. -/
theorem runs_field_new (hindexed : context.Indexed) (owner : Symbol) (declared : String → Bool)
    (member : Symbol.Member) :
    (context.field owner declared member).Runs context.IsFirst never fun _ built =>
      ∀ field ∈ built, field.ident = context.ident member.name ∧ declared member.name = false := by
  rw [Context.field]
  split
  · exact (Runs.tell _).bind fun _ => .done fun _ _ _ hfield =>
      absurd hfield (Option.not_mem_none _)
  · split
    · exact .done fun _ _ hfield => absurd hfield (Option.not_mem_none _)
    · next hnew =>
      refine .recover _ ((runs_resolveDeclared hindexed member.type).bind fun _ => .done ?_)
      exact fun _ _ => ⟨rfl, Bool.eq_false_iff.mpr hnew⟩

theorem notMem_of_not_declared {foreign : String}
    (h : (parent.any (·.declaresField foreign) ||
      built.fields.any (·.ident.foreign = foreign)) = false) :
    foreign ∉ (built.fields ++ inheritedFields parent).map (·.ident.foreign) := by
  rw [Bool.or_eq_false_iff] at h
  rw [List.map_append, List.mem_append, not_or]
  constructor
  · intro hmem
    obtain ⟨field, hfield, heq⟩ := List.mem_map.mp hmem
    exact absurd (List.any_eq_true.mpr ⟨field, hfield, decide_eq_true heq⟩)
      (Bool.eq_false_iff.mp h.2)
  · cases parent with
    | none => exact List.not_mem_nil
    | some type =>
      intro hmem
      exact absurd (TypeDecl.declaresField_iff.mpr hmem) (Bool.eq_false_iff.mp h.1)

/-- **A member keeps fields distinct**, also from those that are inherited. -/
theorem runs_addMember_distinct (hindexed : context.Indexed) (owner : Symbol)
    (parent : Option TypeDecl) (built : Members) (member : Symbol.Member) :
    (context.addMember owner parent built member).Runs context.IsFirst never fun _ more =>
      context.DistinctFields (built.fields ++ inheritedFields parent) →
        context.DistinctFields (more.fields ++ inheritedFields parent) := by
  rw [addMember]
  split
  · exact (runs_constructors hindexed owner member).bind fun _ => .done fun _ _ => id
  · refine (runs_field_new hindexed owner _ member).bind fun more => .done fun _ hmore hbuilt => ?_
    cases more with
    | none => rwa [Option.toList_none, List.append_nil]
    | some field =>
      obtain ⟨hident, hnew⟩ := hmore field rfl
      exact hbuilt.add hident (notMem_of_not_declared hnew)
  · exact (runs_methods hindexed owner member).bind fun _ => .done fun _ _ => id
  · exact (Runs.tell _).bind fun _ => .done fun _ _ => id

/-! ### Types -/

theorem allFields_extending (body : TypeBody) (parent : Option TypeDecl) :
    (TypeDecl.extending body parent).allFields = body.fields ++ inheritedFields parent := by
  cases parent with
  | none => rfl
  | some above => rfl

/-- **A type on top of its parent** has distinct fields if the parent has. -/
theorem distinctFields_of_typeOn (hindexed : context.Indexed) {symbol : Symbol}
    (htype : (context.typeOn symbol parent).outcome = .ok type)
    (hparent : context.DistinctFields (inheritedFields parent)) :
    context.DistinctFields type.allFields := by
  have hmembers := Runs.foldlM (fun built member (_ : member ∈ symbol.members) =>
    runs_addMember_distinct hindexed symbol parent built member) {}
  have htypeOn : (context.typeOn symbol parent).Runs context.IsFirst never fun _ type =>
      context.DistinctFields type.allFields := by
    refine hmembers.bind fun built => .done fun _ hbuilt => ?_
    rw [allFields_extending]
    exact hbuilt hparent
  exact htypeOn.value type htype (fun _ => True) fun _ _ => trivial

/-- **The fields of a type and of its ancestors are distinct.** -/
theorem Declares.distinctFields (h : context.Declares ref type) (hindexed : context.Indexed) :
    context.DistinctFields type.allFields := by
  induction h with
  | top _ _ htype => exact distinctFields_of_typeOn hindexed htype .nil
  | step _ _ _ htype ih => exact distinctFields_of_typeOn hindexed htype ih

/-- A type bears the identifier of its foreign name. -/
theorem Declares.ident_eq (h : context.Declares ref type) (hindexed : context.Indexed) :
    type.ident = context.ident type.ident.foreign := by
  rw [h.foreign_eq hindexed]
  exact ident_of_typeOn hindexed (h.typeOn_eq hindexed)

end Assembly.Context

end Bindery
