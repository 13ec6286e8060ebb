import Bindery.Proofs.Assembly.Fields
import Bindery.Proofs.Assembly.Module
import Bindery.Proofs.Assembly.Resolved
import Bindery.Proofs.Assembly.Told

/-!
# Which fields a type has

A member of a symbol **qualifies** for a field if it stands for one and no ancestor of the type has
a field of its name (`Bindery.Assembly.Context.qualified?`). Of the members of a name the first that
qualifies becomes a field, and the others do not; one that comes before it and does not qualify is
of no account. So the fields of a type are read off the members of its symbol and the bodies of its
ancestors (`Bindery.Assembly.Context.ownFields`).

The ancestors were all built before, so nothing is lost: each member that stands for a field has one
of its name somewhere in the chain, and only one (`Bindery.Assembly.Context.fields_declared_once`).
-/

namespace Bindery.Assembly.Context

open Decl (Field TypeBody TypeDecl)

variable {context : Context} {owner : Symbol} {parent : Option TypeDecl} {built last more : Members}
  {member : Symbol.Member} {members before : List Symbol.Member} {told : List Diagnostic}
  {type : TypeDecl} {ref : context.Ref}

/-! ### Members that qualify -/

/-- **A member qualifies for a field**: it stands for one, and no ancestor has a field of its
name. -/
def qualified? (context : Context) (owner : Symbol) (ancestors : List TypeBody)
    (member : Symbol.Member) : Option Field :=
  if ∃ field ∈ ancestors.flatMap (·.fields), field.ident.foreign = member.name then none
  else context.fieldOf? owner member

/-- A member of this name qualifies for a field. -/
def qualifiesAs (context : Context) (owner : Symbol) (ancestors : List TypeBody) (name : String)
    (member : Symbol.Member) : Bool :=
  member.name = name && (context.qualified? owner ancestors member).isSome

/-- The field of a member, unless one of the members before it qualifies under the same name. -/
def firstQualified? (context : Context) (owner : Symbol) (ancestors : List TypeBody) :
    Symbol.Member × List Symbol.Member → Option Field
  | (member, before) =>
    if before.any (context.qualifiesAs owner ancestors member.name) then none
    else context.qualified? owner ancestors member

/-- **The fields that a symbol declares** on top of some ancestors, in the order of its members: of
each name the first that qualifies. -/
def ownFields (context : Context) (owner : Symbol) (ancestors : List TypeBody) : List Field :=
  (owner.members.zip owner.members.inits).filterMap (context.firstQualified? owner ancestors)

theorem foreign_of_qualified? {ancestors : List TypeBody} {field : Field}
    (h : context.qualified? owner ancestors member = some field) :
    field.ident.foreign = member.name := by
  rw [qualified?] at h
  split at h
  · cases h
  · exact foreign_of_fieldOf? h

theorem foreign_of_firstQualified? {ancestors : List TypeBody} {field : Field}
    (h : context.firstQualified? owner ancestors (member, before) = some field) :
    field.ident.foreign = member.name := by
  rw [firstQualified?] at h
  split at h
  · cases h
  · exact foreign_of_qualified? h

/-- With one more member, a name has a field if one of the members before qualifies or this one. -/
theorem any_firstQualified? (context : Context) (owner : Symbol) (ancestors : List TypeBody)
    (member : Symbol.Member) (before : List Symbol.Member) (name : String) :
    (before.any (context.qualifiesAs owner ancestors name) ||
        (context.firstQualified? owner ancestors (member, before)).toList.any
          (·.ident.foreign = name)) =
      (before.any (context.qualifiesAs owner ancestors name) ||
        context.qualifiesAs owner ancestors name member) := by
  by_cases hname : member.name = name
  · subst hname
    cases hbefore : before.any (context.qualifiesAs owner ancestors member.name) with
    | true => rfl
    | false =>
      rw [qualifiesAs, firstQualified?, hbefore]
      cases hfield : context.qualified? owner ancestors member with
      | none => simp
      | some field => simp [foreign_of_qualified? hfield]
  · -- a member of another name adds nothing under this one
    congr 1
    cases hfield : context.firstQualified? owner ancestors (member, before) with
    | none => simp [qualifiesAs, hname]
    | some field => simp [qualifiesAs, foreign_of_firstQualified? hfield, hname]

/-- The bodies of a parent and its ancestors. -/
def above (parent : Option TypeDecl) : List TypeBody := parent.elim [] (·.chain)

theorem ancestors_extending (body : TypeBody) (parent : Option TypeDecl) :
    (TypeDecl.extending body parent).ancestors = above parent := by
  cases parent <;> rfl

/-- What a parent declares are its own fields and those of its ancestors. -/
theorem any_declaresField_iff {name : String} : parent.any (·.declaresField name) = true ↔
    ∃ field ∈ (above parent).flatMap (·.fields), field.ident.foreign = name := by
  cases parent with
  | none => simp [above]
  | some type => exact TypeDecl.declaresField_iff.trans List.mem_map

/-! ### What members come to -/

/-- **What was built so far is what qualified**: of each name there is a field if some of the
members before qualified. -/
def Tracks (context : Context) (owner : Symbol) (parent : Option TypeDecl) (built : Members)
    (before : List Symbol.Member) : Prop :=
  ∀ name, (built.fields.any (·.ident.foreign = name)) =
    before.any (context.qualifiesAs owner (above parent) name)

theorem Tracks.empty (context : Context) (owner : Symbol) (parent : Option TypeDecl) :
    context.Tracks owner parent {} [] := fun _ => rfl

/-- A member adds its field if it is the first of its name that qualifies. -/
theorem Tracks.fields_eq (h : context.Tracks owner parent built before)
    (hgain : (context.gain owner (isDeclared parent built member) member).outcome = .ok more) :
    more.fields = (context.firstQualified? owner (above parent) (member, before)).toList := by
  rw [fields_gain hgain, firstQualified?, qualified?, ← h member.name, isDeclared]
  simp only [← any_declaresField_iff]
  by_cases hkind : member.kind = .field
  · cases parent.any (·.declaresField member.name) <;> simp [hkind]
  · simp [fieldOf?_of_ne hkind]

theorem Tracks.add (h : context.Tracks owner parent built before)
    (hgain : (context.gain owner (isDeclared parent built member) member).outcome = .ok more) :
    context.Tracks owner parent (built ++ more) (before ++ [member]) := by
  intro name
  rw [Members.fields_append, List.any_append, List.any_append, h name, h.fields_eq hgain,
    List.any_cons, List.any_nil, Bool.or_false]
  exact any_firstQualified? context owner (above parent) member before name

/-- **What members come to are the first that qualify**, after what was built before them. -/
theorem Gathers.fields_eq (h : context.Gathers owner parent built members last told)
    (htracks : context.Tracks owner parent built before) :
    last.fields = built.fields ++ (members.zip (members.inits.map (before ++ ·))).filterMap
        (context.firstQualified? owner (above parent)) ∧
      context.Tracks owner parent last (before ++ members) := by
  induction h generalizing before with
  | nil built =>
    rw [List.append_nil]
    exact ⟨(List.append_nil _).symm, htracks⟩
  | @cons built more last member members told rest hgain _ ih =>
    have hgain : (context.gain owner (isDeclared parent built member) member).outcome = .ok more :=
      congrArg Prod.fst hgain
    obtain ⟨hfields, hlast⟩ := ih (htracks.add hgain)
    rw [List.append_assoc] at hlast
    refine ⟨?_, hlast⟩
    -- what stands before each later member is the same list with this member at its end
    have hinits : (member :: members).inits.map (before ++ ·) =
        before :: members.inits.map (before ++ [member] ++ ·) := by
      simp [Function.comp_def]
    rw [hfields, hinits, List.zip_cons_cons, Members.fields_append, htracks.fields_eq hgain,
      List.append_assoc, List.filterMap_cons]
    cases context.firstQualified? owner (above parent) (member, before) <;> rfl

/-! ### Types -/

/-- **The fields of a type** are the first members that qualify. -/
theorem fields_of_typeOn (hindexed : context.Indexed)
    (htype : (context.typeOn owner parent).outcome = .ok type) :
    type.body.fields = context.ownFields owner type.ancestors := by
  obtain ⟨last, told, hgathers, rfl⟩ := exists_gathers_of_typeOn hindexed htype
  obtain ⟨hfields, -⟩ := hgathers.fields_eq (.empty context owner parent)
  rw [body_extending, ancestors_extending, ownFields]
  change last.fields = _
  simpa using hfields

/-- A member that comes to nothing does not stand in the way of the next one of its name. -/
example :
    let owner := (Symbol.ofClass "Box").withMember (.ofField "size" (.other "unique symbol"))
      |>.withMember (.ofField "size" .number) |>.withMember (.ofField "size" .string)
    (ownFields ⟨.ofSymbols [] [owner], .empty⟩ owner []).map (fun field =>
      (field.ident.foreign, field.type)) = [("size", .primitive .number)] := by
  decide +kernel

/-- **No field is lost**: each member that stands for one has a field of its name, in the type or
in an ancestor. -/
theorem exists_field_of_typeOn (hindexed : context.Indexed)
    (htype : (context.typeOn owner parent).outcome = .ok type) (hmem : member ∈ owner.members)
    (hfield : (context.fieldOf? owner member).isSome = true) :
    ∃ field ∈ type.allFields, field.ident.foreign = member.name := by
  obtain ⟨last, told, hgathers, rfl⟩ := exists_gathers_of_typeOn hindexed htype
  obtain ⟨-, htracks⟩ := hgathers.fields_eq (.empty context owner parent)
  rw [TypeDecl.allFields, TypeDecl.chain, ancestors_extending, List.flatMap_cons]
  by_cases habove : ∃ field ∈ (above parent).flatMap (·.fields), field.ident.foreign = member.name
  · obtain ⟨field, hfield, hname⟩ := habove
    exact ⟨field, List.mem_append_right _ hfield, hname⟩
  · -- no ancestor has one, so the member qualifies
    have hqualifies : context.qualifiesAs owner (above parent) member.name member = true := by
      rw [qualifiesAs, qualified?, if_neg habove, hfield, decide_eq_true rfl, Bool.and_self]
    have hlast := htracks member.name
    rw [List.nil_append, List.any_eq_true.mpr ⟨member, hmem, hqualifies⟩] at hlast
    obtain ⟨field, hfield, hname⟩ := List.any_eq_true.mp hlast
    rw [body_extending]
    exact ⟨field, List.mem_append_left _ hfield, of_decide_eq_true hname⟩

/-- **Fields are declared once in a chain, and none is lost.** The fields of each type of a module
are those of the symbol that it was built from, the first members that qualify on top of its
ancestors. No two fields of a type and its ancestors have the same foreign name, and each member
that stands for a field has one of its name among them. -/
theorem fields_declared_once (sources : List String) (symbols : List Symbol) (config : Config)
    (count : Option ℕ) :
    let context : Context := ⟨.ofSymbols sources symbols, config⟩
    ∃ assembled, context.assemble (context.listed count) = .ok assembled ∧
      ∀ type : TypeDecl, .type type ∈ assembled.decls →
        ∃ symbol, context.original? type = some symbol ∧
          (context.typeOn symbol type.parent?).outcome = .ok type ∧
          type.body.fields = context.ownFields symbol type.ancestors ∧
          (type.allFields.map (·.ident.foreign)).Nodup ∧
          ∀ member ∈ symbol.members, (context.fieldOf? symbol member).isSome = true →
            ∃ field ∈ type.allFields, field.ident.foreign = member.name := by
  intro context
  have hindexed : context.Indexed := indexed_ofSymbols sources symbols config
  obtain ⟨assembled, last, hassemble, hends⟩ := exists_assemble hindexed count
  refine ⟨assembled, hassemble, fun type hmem => ?_⟩
  obtain ⟨ref, hlookup, hdeclares⟩ := hends.exists_declares hmem
  have htype := hdeclares.typeOn_eq hindexed
  exact ⟨context.symbol ref, original?_of_typeOn hindexed (hindexed.isFirst hlookup) htype, htype,
    fields_of_typeOn hindexed htype, (hdeclares.distinctFields hindexed).nodup,
    fun member hmember hfield => exists_field_of_typeOn hindexed htype hmember hfield⟩

end Bindery.Assembly.Context
