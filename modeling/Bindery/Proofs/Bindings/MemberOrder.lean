import Bindery.Proofs.Assembly.MemberOrder
import Bindery.Proofs.Assembly.Mirroring
import Bindery.Proofs.Bindings.Run
import Bindery.Proofs.Emission.Reordering

/-!
# The order of members does not matter

An analysis lists the members of a class in any order. What a run emits does not depend on it, as
long as the fields of each name stay in order: the same keys are emitted in the same order, the
same cycles are reported, and the same is skipped, perhaps in another order. Each declaration is
the same up to reordering its members (`Bindery.Bindings.run_rearranged`).
-/

namespace Bindery

namespace Assembly.Context

open Decl (TypeDecl)

variable {context other : Context} {assembled assembled' : Assembled} {values values' : List Decl}
  {last : State context.table.size} {last' : State other.table.size}

/-- A symbol and the same with its members rearranged. -/
def rearranging (hindexed : context.Indexed) : context.Likeness where
  symbols := Symbol.Rearranged
  types := TypeDecl.Reordered
  telling := .inAnyOrder
  taken := fun _ => []
  eq_with := fun h => h.eq_with
  ident_eq := fun h => h.body.ident_eq.symm
  parent? := fun h => h.parent?
  typeOn := typeOn_rearranged hindexed

/-- Where no symbol is omitted, no denial is missing. -/
theorem omittable_none : context.Omittable fun _ => false :=
  fun _ homit => absurd homit Bool.false_ne_true

/-- Modules with the same types up to reordering, and the same values. -/
theorem Assembles.decls_reordered (h : context.Assembles assembled values last)
    (h' : other.Assembles assembled' values last') (hindexed : context.Indexed)
    (hindexed' : other.Indexed) (htypes : List.Forall₂ TypeDecl.Reordered (types assembled.decls)
      (types assembled'.decls)) : List.Forall₂ Decl.Reordered assembled.decls assembled'.decls := by
  rw [h.decls_eq_append hindexed, h'.decls_eq_append hindexed']
  refine List.rel_append ?_ (List.forall₂_same.mpr fun decl _ => .refl decl)
  exact List.forall₂_map_left_iff.mpr (List.forall₂_map_right_iff.mpr
    (htypes.imp fun _ _ => .type))

/-- **Modules of rearranged symbols** are the same up to reordering, and the same is told of them,
in some order. -/
theorem Assembles.rearranged (h : context.Assembles assembled values last)
    (h' : other.Assembles assembled' values' last') (hindexed : context.Indexed)
    (hindexed' : other.Indexed) (hconfig : other.config = context.config)
    (hsymbols : List.Forall₂ Symbol.Rearranged context.table.symbols.toList
      other.table.symbols.toList) :
    List.Forall₂ Decl.Reordered assembled.decls assembled'.decls ∧
      assembled.report.diagnostics.Perm assembled'.report.diagnostics := by
  have hall : List.Forall₂ (rearranging hindexed).symbols
      (context.table.symbols.toList.filter fun _ => !false) other.table.symbols.toList := by
    have hself : context.table.symbols.toList.filter (fun _ => !false) =
        context.table.symbols.toList := List.filter_eq_self.mpr fun _ _ => rfl
    rw [hself]
    exact hsymbols
  have hmirrors : Mirrors other (rearranging hindexed) :=
    .of_forall₂ omittable_none hindexed hindexed' hconfig hall
  obtain ⟨htypes, rfl, htells⟩ := hmirrors.assembles omittable_none
    (.of_forall₂ omittable_none hindexed hindexed' hall) h h'
  -- no symbol is omitted, and nothing is taken from a type
  have hnothing : omissionsTold (fun _ => false) context.table.symbols.toList ++
      (types assembled.decls).flatMap (rearranging hindexed).takenFrom = [] := by
    refine List.append_eq_nil_iff.mpr ⟨?_, List.flatMap_eq_nil_iff.mpr fun type _ => ?_⟩
    · rw [omissionsTold, List.filter_eq_nil_iff.mpr fun _ _ => Bool.false_ne_true, List.map_nil]
    · rw [Likeness.takenFrom]
      cases context.original? type <;> rfl
  rw [hnothing] at htells
  exact ⟨h.decls_reordered h' hindexed hindexed' htypes, htells⟩

end Assembly.Context

namespace Bindings

open Assembly (Assembled Context)

/-- **The order of members does not matter.** A run on the same symbols with their members
rearranged emits the same keys in the same order, and reports the same cycles. What it skips is
the same, in some order, and each emitted declaration is the same up to reordering. -/
theorem run_rearranged (sources : List String) {symbols symbols' : List Symbol} (config : Config)
    (h : List.Forall₂ Symbol.Rearranged symbols symbols') :
    let context : Context := ⟨.ofSymbols sources symbols, config⟩
    let rearranged : Context := ⟨.ofSymbols sources symbols', config⟩
    ∃ assembled assembled' bindings bindings', Run context assembled bindings ∧
      Run rearranged assembled' bindings' ∧
      (emit assembled.decls).decls.map Decl.key? = (emit assembled'.decls).decls.map Decl.key? ∧
      cycles bindings = cycles bindings' ∧ (skipped bindings).Perm (skipped bindings') ∧
      List.Forall₂ Decl.Reordered (emit assembled.decls).decls (emit assembled'.decls).decls := by
  intro context rearranged
  have hindexed : context.Indexed := Context.indexed_ofSymbols sources symbols config
  have hindexed' : rearranged.Indexed := Context.indexed_ofSymbols sources symbols' config
  obtain ⟨assembled, bindings, values, last, hrun, hassembles⟩ := exists_run hindexed
  obtain ⟨assembled', bindings', values', last', hrun', hassembles'⟩ := exists_run hindexed'
  obtain ⟨hdecls, htold⟩ := hassembles.rearranged hassembles' hindexed hindexed' rfl h
  have hskips := hassembles.skips hindexed
  have hskips' := hassembles'.skips hindexed'
  have hemit := Emission.emit_reordered hdecls
  refine ⟨assembled, assembled', bindings, bindings', hrun, hrun', ?_, ?_, ?_, hemit⟩
  · rw [← List.forall₂_eq_eq_eq, List.forall₂_map_left_iff, List.forall₂_map_right_iff]
    exact hemit.imp fun _ _ hdecl => hdecl.key?_eq
  · rw [hrun.cycles_eq hskips, hrun'.cycles_eq hskips', Emission.cycles_eq hdecls]
  · rw [hrun.skipped_eq hskips, hrun'.skipped_eq hskips', Emission.reused_eq hdecls]
    exact htold.append_right _

section Sample

/-- A class with these members. -/
private def vector (members : List Symbol.Member) : Symbol :=
  members.foldl Symbol.withMember (.ofClass "Vector")

private def width : Symbol.Member := .ofField "width" .number

private def height : Symbol.Member := .ofField "height" .number

private def norm : Symbol.Member := .ofMethod "norm" [⟨[], .number⟩]

/-- The fields of a vector in another order, and its method before them. -/
theorem vector_rearranged :
    List.Forall₂ Symbol.Rearranged [vector [width, height, norm]] [vector [norm, height, width]] ∧
      ∃ assembled assembled' bindings bindings',
        Run ⟨.ofSymbols [] [vector [width, height, norm]], default⟩ assembled bindings ∧
        Run ⟨.ofSymbols [] [vector [norm, height, width]], default⟩ assembled' bindings' ∧
        (emit assembled.decls).decls.map Decl.key? = (emit assembled'.decls).decls.map Decl.key? ∧
        cycles bindings = cycles bindings' ∧ (skipped bindings).Perm (skipped bindings') ∧
        List.Forall₂ Decl.Reordered (emit assembled.decls).decls (emit assembled'.decls).decls := by
  have hmembers : Symbol.Member.Rearranged [width, height, norm] [norm, height, width] := by
    refine ⟨by decide, fun name => ?_⟩
    have hmethod : norm.isFieldOf name = false := rfl
    by_cases hwidth : width.isFieldOf name = true
    · have hheight : height.isFieldOf name = false := by
        rw [← (Symbol.Member.isFieldOf_iff.mp hwidth).2]
        decide
      simp [hwidth, hheight, hmethod]
    · simp [hwidth, hmethod, List.filter_cons]
  have hvectors : List.Forall₂ Symbol.Rearranged [vector [width, height, norm]]
      [vector [norm, height, width]] := .cons ⟨rfl, hmembers⟩ .nil
  exact ⟨hvectors, run_rearranged [] default hvectors⟩

end Sample

end Bindings

end Bindery
