import Bindery.Decl.Render
import Bindery.Proofs.Decl.Dependencies

/-!
# Renaming types

A declaration names types in many places: as the type of something, as its owner, or as a parent. To
**rename** types is to give all of these identifiers other names, each by what it stands for
(`Bindery.Decl.renamed`). The text of a declaration does not change if the names that are read while
it is rendered stay the same (`Bindery.Decl.render_renamed_of_fixes`); these are collected in
`Bindery.Decl.typeIdents`.

Whatever name is read in this way is that of the type itself, or of one that the declaration depends
on, if its members belong to it (`Bindery.Decl.Owns`). Without this a name could be read that nobody
counts as a dependency: that of an owner.
-/

namespace Bindery

/-- An identifier with the name that is given to what it stands for. -/
def Ident.renamed (rename : String → String) (ident : Ident) : Ident :=
  { ident with name := rename ident.foreign }

theorem Ident.renamed_eq_self {rename : String → String} {ident : Ident}
    (h : rename ident.foreign = ident.name) : ident.renamed rename = ident := by
  rw [Ident.renamed, h]

namespace Decl

variable {rename : String → String} {ident : Ident}

/-! ### Other names for types -/

/-- The type under another name, if it is declared. -/
def TypeRef.renamed (rename : String → String) : TypeRef → TypeRef
  | .primitive p => .primitive p
  | .declared ident => .declared (ident.renamed rename)

/-- A parameter of the renamed type. -/
def Parameter.renamed (rename : String → String) (parameter : Parameter) : Parameter :=
  { parameter with type := parameter.type.renamed rename }

/-- A variable of the renamed type. -/
def Global.renamed (rename : String → String) (global : Global) : Global :=
  { global with type := global.type.renamed rename }

/-- A field of the renamed type. -/
def Field.renamed (rename : String → String) (field : Field) : Field :=
  { field with type := field.type.renamed rename }

/-- A signature of renamed types, and with its owner renamed. -/
def Signature.renamed (rename : String → String) (signature : Signature) : Signature :=
  { signature with
    params := signature.params.map (·.renamed rename)
    returns := signature.returns.renamed rename
    owner := signature.owner.map (·.renamed rename) }

/-- A constructor of a renamed type. -/
def Constructor.renamed (rename : String → String) (constructor : Constructor) : Constructor :=
  ⟨constructor.owner.renamed rename, constructor.params.map (·.renamed rename)⟩

/-- A body in which all types are renamed, its own included. -/
def TypeBody.renamed (rename : String → String) (body : TypeBody) : TypeBody :=
  { body with
    ident := body.ident.renamed rename
    fields := body.fields.map (·.renamed rename)
    constructors := body.constructors.map (·.renamed rename)
    methods := body.methods.map (·.renamed rename) }

/-- A type in which all types are renamed, and those above it as well. -/
def TypeDecl.renamed (rename : String → String) (type : TypeDecl) : TypeDecl :=
  ⟨type.body.renamed rename, type.ancestors.map (·.renamed rename)⟩

/-- **A declaration with other names for types**, given by their foreign names. -/
def renamed (rename : String → String) : Decl → Decl
  | primitive p => .primitive p
  | global g => .global (g.renamed rename)
  | parameter p => .parameter (p.renamed rename)
  | field f => .field (f.renamed rename)
  | signature s => .signature (s.renamed rename)
  | constructor c => .constructor (c.renamed rename)
  | type t => .type (t.renamed rename)

/-! ### The names that are read -/

/-- The identifier of a type that is declared. -/
def TypeRef.ident? : TypeRef → Option Ident
  | .primitive _ => none
  | .declared ident => some ident

/-- The types of parameters. -/
def paramIdents (params : List Parameter) : List Ident := params.filterMap (·.type.ident?)

/-- The types that a signature names. -/
def Signature.typeIdents (signature : Signature) : List Ident :=
  signature.owner.toList ++ paramIdents signature.params ++ signature.returns.ident?.toList

/-- The types that a constructor names. -/
def Constructor.typeIdents (constructor : Constructor) : List Ident :=
  constructor.owner :: paramIdents constructor.params

/-- The types that a type names, itself first and then its parent. -/
def TypeDecl.typeIdents (type : TypeDecl) : List Ident :=
  type.ident :: (type.parent?.map (·.ident)).toList ++
    type.body.fields.filterMap (·.type.ident?) ++
    type.body.constructors.flatMap Constructor.typeIdents ++
    type.body.methods.flatMap Signature.typeIdents

/-- **The types that a declaration names** in its text. -/
def typeIdents : Decl → List Ident
  | primitive _ => []
  | global g => g.type.ident?.toList
  | parameter p => p.type.ident?.toList
  | field f => f.type.ident?.toList
  | signature s => s.typeIdents
  | constructor c => c.typeIdents
  | type t => t.typeIdents

/-! ### Names that stay -/

/-- **A renaming fixes identifiers** if it gives each the name that it has. -/
def Fixes (rename : String → String) (idents : List Ident) : Prop :=
  ∀ ident ∈ idents, rename ident.foreign = ident.name

theorem fixes_append_iff {idents more : List Ident} :
    Fixes rename (idents ++ more) ↔ Fixes rename idents ∧ Fixes rename more :=
  List.forall_mem_append

theorem fixes_cons_iff {idents : List Ident} :
    Fixes rename (ident :: idents) ↔ rename ident.foreign = ident.name ∧ Fixes rename idents :=
  List.forall_mem_cons

theorem fixes_flatMap_iff {α : Type} {items : List α} {idents : α → List Ident} :
    Fixes rename (items.flatMap idents) ↔ ∀ item ∈ items, Fixes rename (idents item) :=
  List.forall_mem_flatMap

theorem TypeRef.renamed_eq_self {ref : TypeRef} (h : Fixes rename ref.ident?.toList) :
    ref.renamed rename = ref := by
  cases ref with
  | primitive => rfl
  | declared ident =>
    exact congrArg TypeRef.declared (Ident.renamed_eq_self (h ident (List.mem_singleton_self _)))

/-- Where each item stays the same, all do. -/
theorem map_eq_self {α : Type} {items : List α} {f : α → α} (h : ∀ item ∈ items, f item = item) :
    items.map f = items :=
  (List.map_congr_left h).trans (List.map_id _)

theorem map_renamed_params {params : List Parameter} (h : Fixes rename (paramIdents params)) :
    params.map (·.renamed rename) = params := by
  refine map_eq_self fun param hmem => ?_
  have htype : param.type.renamed rename = param.type := TypeRef.renamed_eq_self fun ident hident =>
    h ident (List.mem_filterMap.mpr ⟨param, hmem, Option.mem_toList.mp hident⟩)
  rw [Parameter.renamed, htype]

theorem map_renamed_fields {fields : List Field}
    (h : Fixes rename (fields.filterMap (·.type.ident?))) :
    fields.map (·.renamed rename) = fields := by
  refine map_eq_self fun field hmem => ?_
  have htype : field.type.renamed rename = field.type := TypeRef.renamed_eq_self fun ident hident =>
    h ident (List.mem_filterMap.mpr ⟨field, hmem, Option.mem_toList.mp hident⟩)
  rw [Field.renamed, htype]

theorem Signature.renamed_eq_self {signature : Signature} (h : Fixes rename signature.typeIdents) :
    signature.renamed rename = signature := by
  rw [typeIdents, fixes_append_iff, fixes_append_iff] at h
  obtain ⟨⟨howner, hparams⟩, hreturns⟩ := h
  rw [renamed, map_renamed_params hparams, TypeRef.renamed_eq_self hreturns]
  have hmap : signature.owner.map (·.renamed rename) = signature.owner := by
    cases heq : signature.owner with
    | none => rfl
    | some owner => exact congrArg some (Ident.renamed_eq_self (howner owner (by simp [heq])))
  rw [hmap]

theorem Constructor.renamed_eq_self {constructor : Constructor}
    (h : Fixes rename constructor.typeIdents) : constructor.renamed rename = constructor := by
  obtain ⟨howner, hparams⟩ := fixes_cons_iff.mp h
  rw [renamed, Ident.renamed_eq_self howner, map_renamed_params hparams]

/-! ### Text that stays -/

/-- **The lines of a type** are made of its body and the name of its parent. -/
theorem TypeDecl.lines_congr {type other : TypeDecl} (hbody : type.body = other.body)
    (hparent : type.parent?.map (·.ident.name) = other.parent?.map (·.ident.name)) :
    type.lines = other.lines := by
  rw [lines, lines, renderHeader, renderHeader, hbody, hparent, ident, hbody]

theorem TypeDecl.parent?_renamed (rename : String → String) (type : TypeDecl) :
    (type.renamed rename).parent? = type.parent?.map (·.renamed rename) := by
  rw [TypeDecl.parent?, TypeDecl.parent?, renamed]
  cases type.ancestors <;> rfl

theorem TypeDecl.render_renamed {type : TypeDecl} (h : Fixes rename type.typeIdents) :
    (type.renamed rename).render = type.render := by
  rw [typeIdents, fixes_append_iff, fixes_append_iff, fixes_append_iff, fixes_cons_iff,
    fixes_flatMap_iff, fixes_flatMap_iff] at h
  obtain ⟨⟨⟨⟨hself, hparent⟩, hfields⟩, hconstructors⟩, hmethods⟩ := h
  have hbody : type.body.renamed rename = type.body := by
    rw [TypeBody.renamed, Ident.renamed_eq_self hself, map_renamed_fields hfields,
      map_eq_self fun constructor hmem =>
        Constructor.renamed_eq_self (hconstructors constructor hmem),
      map_eq_self fun method hmem => Signature.renamed_eq_self (hmethods method hmem)]
  -- of a parent nothing is read but its name
  have hname : (type.renamed rename).parent?.map (·.ident.name) =
      type.parent?.map (·.ident.name) := by
    rw [parent?_renamed, Option.map_map]
    exact Option.map_congr fun parent hmem =>
      hparent parent.ident (Option.mem_toList.mpr (Option.mem_map_of_mem _ hmem))
  have hlines : (type.renamed rename).lines = type.lines := lines_congr hbody hname
  rw [render, render, hlines]

/-- **Text stays the same** if the names that are read in it do. -/
theorem render_renamed_of_fixes {decl : Decl} (h : Fixes rename decl.typeIdents) :
    (decl.renamed rename).render = decl.render := by
  cases decl with
  | primitive => rfl
  | global g =>
    exact congrArg (fun type => Global.render { g with type }) (TypeRef.renamed_eq_self h)
  | parameter p =>
    exact congrArg (fun type => Parameter.render { p with type }) (TypeRef.renamed_eq_self h)
  | field f => exact congrArg (fun type => Field.render { f with type }) (TypeRef.renamed_eq_self h)
  | signature s => exact congrArg Signature.render (Signature.renamed_eq_self h)
  | constructor c => exact congrArg Constructor.render (Constructor.renamed_eq_self h)
  | type t => exact TypeDecl.render_renamed h

/-! ### Whose names are read -/

/-- **The members of a type belong to it.** -/
structure TypeDecl.Owns (type : TypeDecl) : Prop where
  constructors : ∀ constructor ∈ type.body.constructors, constructor.owner = type.ident
  methods : ∀ method ∈ type.body.methods, method.owner = some type.ident

/-- **Members stand in the type that owns them**, and no other declaration has an owner. -/
def Owns : Decl → Prop
  | type t => t.Owns
  | signature s => s.owner = none
  | constructor _ => False
  | primitive _ | global _ | parameter _ | field _ => True

theorem TypeRef.mem_key? {ref : TypeRef} (h : ident ∈ ref.ident?) :
    Key.type ident.foreign ∈ ref.key? := by
  cases ref with
  | primitive => cases h
  | declared other =>
    obtain rfl := Option.some.inj h
    rfl

theorem mem_paramKeys {params : List Parameter} (h : ident ∈ paramIdents params) :
    Key.type ident.foreign ∈ paramKeys params := by
  obtain ⟨param, hmem, hident⟩ := List.mem_filterMap.mp h
  exact List.mem_filterMap.mpr ⟨param, hmem, TypeRef.mem_key? hident⟩

theorem Signature.mem_references {signature : Signature} (h : ident ∈ signature.typeIdents) :
    ident ∈ signature.owner ∨ Key.type ident.foreign ∈ signature.references := by
  rw [typeIdents, List.mem_append, List.mem_append] at h
  rcases h with (howner | hparam) | hreturns
  · exact .inl (Option.mem_toList.mp howner)
  · exact .inr (List.mem_append_left _ (mem_paramKeys hparam))
  · refine .inr (List.mem_append_right _ (Option.mem_toList.mpr ?_))
    exact TypeRef.mem_key? (Option.mem_toList.mp hreturns)

/-- **A type reads its own name**, and those of types that it refers to. -/
theorem TypeDecl.mem_references {type : TypeDecl} (howns : type.Owns)
    (h : ident ∈ type.typeIdents) :
    ident = type.ident ∨ Key.type ident.foreign ∈ type.references := by
  simp only [references, List.mem_append, List.mem_flatMap, List.mem_filterMap]
  simp only [typeIdents, List.mem_append, List.mem_cons, List.mem_flatMap, List.mem_filterMap,
    Constructor.typeIdents] at h
  rcases h with (((rfl | hparent) | ⟨field, hmem, hident⟩) | ⟨constructor, hmem, rfl | hident⟩) |
    ⟨method, hmem, hident⟩
  · exact .inl rfl
  · obtain ⟨parent, heq, rfl⟩ := Option.map_eq_some_iff.mp (Option.mem_toList.mp hparent)
    refine .inr (.inl (.inl (.inl ?_)))
    rw [heq]
    exact List.mem_singleton_self _
  · exact .inr (.inl (.inl (.inr ⟨field, hmem, TypeRef.mem_key? hident⟩)))
  · exact .inl (howns.constructors constructor hmem)
  · exact .inr (.inl (.inr ⟨constructor, hmem, mem_paramKeys hident⟩))
  · rcases method.mem_references hident with howner | hkey
    · rw [howns.methods method hmem] at howner
      exact .inl (Option.some.inj howner).symm
    · exact .inr (.inr ⟨method, hmem, hkey⟩)

/-- **Whatever name is read** is that of the declaration, or of a type that it depends on. -/
theorem mem_dependencies_of_typeIdents {decl : Decl} (howns : decl.Owns)
    (h : ident ∈ decl.typeIdents) :
    .type ident.foreign ∈ decl.dependencies ∨ decl.key? = some (.type ident.foreign) := by
  have hof {ref : TypeRef} (h : ident ∈ ref.ident?.toList) :
      Key.type ident.foreign ∈ Std.TreeSet.ofList ref.key?.toList :=
    mem_ofList_iff.mpr (Option.mem_toList.mpr (TypeRef.mem_key? (Option.mem_toList.mp h)))
  cases decl with
  | primitive => exact absurd h List.not_mem_nil
  | global g => exact .inl (hof h)
  | parameter p => exact .inl (hof h)
  | field f => exact .inl (hof h)
  | signature s =>
    have howner : s.owner = none := howns
    rcases s.mem_references h with hown | hkey
    · rw [howner] at hown
      cases hown
    · exact .inl (mem_ofList_iff.mpr hkey)
  | constructor c => exact howns.elim
  | type t =>
    by_cases hself : Key.type ident.foreign = t.key
    · exact .inr (congrArg some hself.symm)
    · refine .inl (TypeDecl.mem_dependencies.mpr ⟨hself, ?_⟩)
      refine (t.mem_references howns h).resolve_left fun heq => hself ?_
      rw [heq]
      rfl

end Decl

end Bindery
