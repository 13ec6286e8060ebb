import Bindery.Proofs.Assembly.Moves
import Bindery.Proofs.Assembly.Overloads
import Bindery.Proofs.Assembly.OwnFields
import Bindery.Proofs.Decl.Renaming

/-!
# Renaming the types of a module

All identifiers for one foreign name are the same in a module, as each is made from that name alone
(`Bindery.Assembly.Context.Spells`). So to give types other names is to say, for each foreign name,
what is written in its place. Whatever types the text of a declaration names, it depends on them or
is one of them itself: a member belongs to the type that it stands in, and anything else that is
named is a type that something in the declaration has. Therefore the text stays as it is if all of
these keep their names (`Bindery.Assembly.Context.text_follows_dependencies`).
-/

namespace Bindery.Assembly.Context

open Decl (Constructor Field Fixes Parameter TypeDecl TypeRef paramIdents)

variable {context : Context} {owner symbol : Symbol} {ref : context.Ref} {type : TypeDecl}

/-! ### Identifiers made from foreign names -/

/-- **Identifiers are spelled** as their foreign names have it. -/
def Spells (context : Context) (idents : List Ident) : Prop :=
  ∀ ident ∈ idents, ident = context.ident ident.foreign

theorem spells_nil (context : Context) : context.Spells [] :=
  fun _ hmem => absurd hmem List.not_mem_nil

theorem spells_singleton (context : Context) (foreign : String) :
    context.Spells [context.ident foreign] := by
  intro ident hmem
  rw [List.mem_singleton.mp hmem]
  rfl

theorem Spells.append {idents more : List Ident} (h : context.Spells idents)
    (hmore : context.Spells more) : context.Spells (idents ++ more) :=
  fun ident hmem => (List.mem_append.mp hmem).elim (h ident) (hmore ident)

theorem Spells.flatMap {α : Type} {items : List α} {idents : α → List Ident}
    (h : ∀ item ∈ items, context.Spells (idents item)) : context.Spells (items.flatMap idents) := by
  intro ident hmem
  obtain ⟨item, hitem, hident⟩ := List.mem_flatMap.mp hmem
  exact h item hitem ident hident

/-- What is spelled keeps its names under a renaming that agrees with the spelling. -/
theorem Spells.fixes {idents : List Ident} (h : context.Spells idents) {rename : String → String}
    (hrename : ∀ ident ∈ idents, rename ident.foreign = (context.ident ident.foreign).name) :
    Fixes rename idents :=
  fun ident hmem => (hrename ident hmem).trans (congrArg Ident.name (h ident hmem)).symm

/-! ### Types that are resolved -/

theorem spells_typeRef? {foreign : ForeignType} {built : TypeRef}
    (h : context.typeRef? foreign = some built) : context.Spells built.ident?.toList := by
  rw [typeRef?] at h
  cases hclass : context.table.classify foreign with
  | classLike ref =>
    rw [hclass] at h
    obtain rfl := Option.some.inj h
    exact context.spells_singleton _
  | unrepresentable =>
    rw [hclass] at h
    cases h
  | _ =>
    rw [hclass] at h
    obtain rfl := Option.some.inj h
    exact context.spells_nil

theorem spells_declaredType? {foreign? : Option ForeignType} {built : TypeRef}
    (h : context.declaredType? foreign? = some built) : context.Spells built.ident?.toList := by
  obtain ⟨foreign, -, hbuilt⟩ := Option.bind_eq_some_iff.mp h
  exact spells_typeRef? hbuilt

theorem spells_params? {params : List Symbol.Param} {built : List Parameter}
    (h : context.params? params = some built) : context.Spells (paramIdents built) := by
  induction params generalizing built with
  | nil =>
    obtain rfl := Option.some.inj h
    exact context.spells_nil
  | cons param params ih =>
    rw [params?_cons] at h
    obtain ⟨type, htype, h⟩ := Option.bind_eq_some_iff.mp h
    obtain ⟨rest, hrest, rfl⟩ := Option.map_eq_some_iff.mp h
    intro ident hmem
    obtain ⟨parameter, hparameter, hident⟩ := List.mem_filterMap.mp hmem
    rcases List.mem_cons.mp hparameter with rfl | hparameter
    · exact spells_typeRef? htype ident (Option.mem_toList.mpr hident)
    · exact ih hrest ident (List.mem_filterMap.mpr ⟨parameter, hparameter, hident⟩)

theorem spells_acceptedSignatures {name : String} {owned : Option Ident}
    {signatures : List Symbol.Signature} (howned : context.Spells owned.toList) :
    ∀ built ∈ context.acceptedSignatures name owned signatures,
      built.owner = owned ∧ context.Spells built.typeIdents := by
  intro built hmem
  obtain ⟨overload, -, hsignature⟩ := List.mem_filterMap.mp hmem
  obtain ⟨params, hparams, hsignature⟩ := Option.bind_eq_some_iff.mp hsignature
  obtain ⟨returns, hreturns, rfl⟩ := Option.map_eq_some_iff.mp hsignature
  exact ⟨rfl, (howned.append (spells_params? hparams)).append (spells_typeRef? hreturns)⟩

/-! ### Variables and functions -/

/-- **What a symbol comes to** has no owner, and the types in it are spelled. -/
theorem spells_tableValues {decl : Decl} (h : decl ∈ context.tableValues symbol) :
    decl.Owns ∧ context.Spells decl.typeIdents := by
  rw [tableValues] at h
  split at h
  · exact absurd h List.not_mem_nil
  · split at h
    · obtain ⟨type, htype, rfl⟩ := Option.map_eq_some_iff.mp (Option.mem_toList.mp h)
      exact ⟨trivial, spells_declaredType? htype⟩
    · obtain ⟨built, hbuilt, rfl⟩ := List.mem_map.mp h
      exact spells_acceptedSignatures context.spells_nil built hbuilt
    · exact absurd h List.not_mem_nil
    · exact absurd h List.not_mem_nil

/-! ### Types -/

theorem spells_ownFields {ancestors : List Decl.TypeBody} :
    context.Spells ((context.ownFields owner ancestors).filterMap (·.type.ident?)) := by
  intro ident hmem
  obtain ⟨field, hfield, hident⟩ := List.mem_filterMap.mp hmem
  obtain ⟨⟨member, before⟩, -, hfirst⟩ := List.mem_filterMap.mp hfield
  rw [firstQualified?, qualified?, fieldOf?] at hfirst
  split at hfirst
  · cases hfirst
  · split at hfirst
    · cases hfirst
    · split at hfirst
      · obtain ⟨type, htype, rfl⟩ := Option.map_eq_some_iff.mp hfirst
        exact spells_declaredType? htype ident (Option.mem_toList.mpr hident)
      · cases hfirst

theorem spells_acceptedParams {members : List Symbol.Member} :
    ∀ params ∈ context.acceptedParams members, context.Spells (paramIdents params) := by
  intro params hmem
  obtain ⟨member, -, hmem⟩ := List.mem_flatMap.mp hmem
  obtain ⟨signature, -, hparams⟩ := List.mem_filterMap.mp hmem
  exact spells_params? hparams

theorem spells_providedParams {symbols : List Symbol} :
    ∀ params ∈ context.providedParams symbols, context.Spells (paramIdents params) := by
  have hnone : ∀ params ∈ [[]], context.Spells (paramIdents params) := fun params hmem =>
    List.mem_singleton.mp hmem ▸ context.spells_nil
  induction symbols with
  | nil => exact hnone
  | cons symbol symbols ih =>
    rw [providedParams_cons]
    split
    · exact hnone
    · split
      · exact ih
      · exact spells_acceptedParams

theorem spells_methods (hindexed : context.Indexed) {parent : Option TypeDecl}
    (htype : (context.typeOn owner parent).outcome = .ok type) :
    context.Spells (type.body.methods.flatMap Decl.Signature.typeIdents) := by
  rw [methods_of_typeOn hindexed htype]
  refine .flatMap fun method hmem => ?_
  obtain ⟨member, -, hmem⟩ := List.mem_flatMap.mp hmem
  rw [methodsOf] at hmem
  split at hmem
  · exact (spells_acceptedSignatures (context.spells_singleton owner.name) method hmem).2
  · exact absurd hmem List.not_mem_nil

namespace Declares

theorem ident_spelled (h : context.Declares ref type) (hindexed : context.Indexed) :
    context.Spells [type.ident] := by
  rw [ident_of_typeOn hindexed (h.typeOn_eq hindexed)]
  exact context.spells_singleton _

theorem parent_spelled (h : context.Declares ref type) (hindexed : context.Indexed) :
    context.Spells (type.parent?.map (·.ident)).toList := by
  cases h with
  | top _ _ htype =>
    rw [parent?_of_typeOn hindexed htype]
    exact context.spells_nil
  | step _ _ habove htype =>
    rw [parent?_of_typeOn hindexed htype]
    exact habove.ident_spelled hindexed

theorem owns (h : context.Declares ref type) (hindexed : context.Indexed) : type.Owns :=
  ⟨fun _ hmem => h.owner_of_constructor hindexed hmem,
    owner_of_method hindexed (h.typeOn_eq hindexed)⟩

theorem constructors_spelled (h : context.Declares ref type) (hindexed : context.Indexed) :
    context.Spells (type.body.constructors.flatMap Constructor.typeIdents) := by
  refine .flatMap fun constructor hmem => ?_
  have howner := h.owner_of_constructor hindexed hmem
  obtain ⟨walk, hwalk, -⟩ := h.exists_ascent hindexed
  rw [h.constructors_eq hindexed hwalk] at hmem
  split at hmem
  · exact absurd hmem List.not_mem_nil
  · obtain ⟨params, hparams, rfl⟩ := List.mem_map.mp hmem
    exact (h.ident_spelled hindexed).append (spells_providedParams params hparams)

/-- **The types that a type names** are spelled. -/
theorem spells (h : context.Declares ref type) (hindexed : context.Indexed) :
    context.Spells type.typeIdents := by
  have htype := h.typeOn_eq hindexed
  have hfields : context.Spells (type.body.fields.filterMap (·.type.ident?)) := by
    rw [fields_of_typeOn hindexed htype]
    exact spells_ownFields
  exact ((((h.ident_spelled hindexed).append (h.parent_spelled hindexed)).append hfields).append
    (h.constructors_spelled hindexed)).append (spells_methods hindexed htype)

end Declares

/-! ### Modules -/

/-- **In a declaration of a module** members belong to the type that they stand in, and the types
that are named are spelled. -/
theorem Arises.owns_and_spells {count : Option ℕ} {assembled : Assembled}
    {last : State context.table.size} (h : context.Arises count assembled last)
    (hindexed : context.Indexed) {decl : Decl} (hdecl : decl ∈ assembled.decls) :
    decl.Owns ∧ context.Spells decl.typeIdents := by
  have hmem := hdecl
  rw [h.decls_eq, List.mem_append] at hmem
  rcases hmem with hmem | hmem
  · obtain ⟨type, -, rfl⟩ := List.mem_map.mp hmem
    obtain ⟨ref, -, hdeclares⟩ := h.ends.exists_declares hdecl
    exact ⟨hdeclares.owns hindexed, hdeclares.spells hindexed⟩
  · obtain ⟨ref, -, hvalue⟩ := List.mem_flatMap.mp hmem
    rw [values_eq_tableValues] at hvalue
    exact spells_tableValues hvalue

/-- **Text and dependencies agree.** To give types other names does not change the text of a
declaration of a module, if the declaration itself and the types that it depends on keep theirs. -/
theorem text_follows_dependencies (sources : List String) (symbols : List Symbol) (config : Config)
    (count : Option ℕ) :
    let context : Context := ⟨.ofSymbols sources symbols, config⟩
    ∃ assembled, context.assemble (context.listed count) = .ok assembled ∧
      ∀ decl ∈ assembled.decls, ∀ rename : String → String,
        (∀ name, .type name ∈ decl.dependencies ∨ decl.key? = some (.type name) →
          rename name = (context.ident name).name) →
        (decl.renamed rename).render = decl.render := by
  intro context
  have hindexed : context.Indexed := indexed_ofSymbols sources symbols config
  obtain ⟨assembled, last, harises⟩ := exists_arises hindexed count
  refine ⟨assembled, harises.assemble_eq, fun decl hdecl rename hrename => ?_⟩
  obtain ⟨howns, hspells⟩ := harises.owns_and_spells hindexed hdecl
  refine Decl.render_renamed_of_fixes (hspells.fixes fun ident hident => ?_)
  exact hrename ident.foreign (Decl.mem_dependencies_of_typeIdents howns hident)

section Figures

/-- A class that refers to another one, and a variable of a third. -/
private def figures : List Symbol :=
  [((Symbol.ofClass "Circle").withMember (.ofField "center" (.named "Point"))).withMember
      (.ofMethod "grow" [⟨[⟨"factor", .number⟩], .named "Circle"⟩]),
    .ofGlobal "caption" (.named "Label"), .ofClass "Label", .ofClass "Point"]

/-- The circle, as it is declared. -/
private def circle : Decl :=
  .type ⟨{ ident := ⟨"Circle", "Circle"⟩
           isAbstract := false
           fields := [⟨⟨"center", "center"⟩, .declared ⟨"Point", "Point"⟩⟩]
           constructors := [⟨⟨"Circle", "Circle"⟩, []⟩]
           methods := [
            { ident := ⟨"grow", "grow"⟩
              params := [⟨⟨"factor", "factor"⟩, .primitive .number⟩]
              returns := .declared ⟨"Circle", "Circle"⟩
              owner := some ⟨"Circle", "Circle"⟩
              overload := 0 }] }, []⟩

/-- The variable, as it is declared. -/
private def caption : Decl := .global ⟨⟨"caption", "caption"⟩, .declared ⟨"Label", "Label"⟩⟩

/-- Labels are called tags, and all other types keep their names. -/
private def toTag (name : String) : String := if name = "Label" then "Tag" else name

/-- The text of a class stays as it is if only the type of a variable gets another name. The text of
the variable does not. -/
theorem text_follows_dependencies_circle :
    let context : Context := ⟨.ofSymbols [] figures, .standard⟩
    ∃ assembled, context.assemble (context.listed none) = .ok assembled ∧
      circle ∈ assembled.decls ∧ caption ∈ assembled.decls ∧
      circle.dependencies.toList = [.type "Point"] ∧
      (circle.renamed toTag).render = circle.render ∧
      caption.dependencies.toList = [.type "Label"] ∧
      (caption.renamed toTag).render ≠ caption.render := by
  intro context
  obtain ⟨assembled, hassemble, htext⟩ := text_follows_dependencies [] figures .standard none
  have heval : (context.assemble (context.listed none)).toOption.map
      (fun assembled => decide (circle ∈ assembled.decls ∧ caption ∈ assembled.decls)) =
        some true := by decide +kernel
  obtain ⟨other, hother, hread⟩ := exists_assembled_of_read heval
  obtain rfl := Except.ok.inj (hassemble.symm.trans hother)
  obtain ⟨hcircle, hcaption⟩ := of_decide_eq_true hread
  have hdependencies : circle.dependencies.toList = [.type "Point"] := by decide +kernel
  refine ⟨assembled, hassemble, hcircle, hcaption, hdependencies,
    htext circle hcircle toTag ?_, by decide +kernel, by decide +kernel⟩
  rintro name (hdep | hkey)
  · rw [← Std.TreeSet.mem_toList, hdependencies, List.mem_singleton] at hdep
    obtain rfl := Decl.Key.type.inj hdep
    decide +kernel
  · obtain rfl := Decl.Key.type.inj (Option.some.inj hkey)
    decide +kernel

end Figures

end Bindery.Assembly.Context
