import Bindery.Proofs.Assembly.Refusals
import Bindery.Proofs.Bindings.Run

/-!
# What is missing from the bindings

A declaration that is emitted may depend on a type that is not
(`Bindery.Bindings.Lacks`). If the type was built, it lies on a cycle, which a diagnostic names.
Otherwise it could not be built, and then a diagnostic names it or a type below it
(`Bindery.Bindings.lacking_accounted`). It is named itself if it is listed, but one that is not
listed may go unnamed, when it fails for the sake of a type below it and is not asked for again
(`Bindery.Bindings.lacking_unnamed`).
-/

namespace Bindery.Bindings

open Assembly (Context State)
open Decl (Key)

variable {context : Context} {assembled : Assembly.Assembled} {bindings : Bindings}
  {count : Option ℕ} {name : String}

/-- **A type is lacking**: something that is emitted depends on it, but it is not emitted. -/
def Lacks (emitted : List Decl) (name : String) : Prop :=
  (∃ decl ∈ emitted, .type name ∈ decl.dependencies) ∧
    ∀ decl ∈ emitted, decl.key? ≠ some (.type name)

/-- **What is built but not emitted** is named, on a cycle. -/
theorem RunOn.toldOf_of_built (h : RunOn context count assembled bindings)
    {last : State context.table.size} {type : Decl.TypeDecl}
    (hends : context.Ends (context.listed count) assembled.decls last)
    (hbuilt : last.memo[name]? = some (.built type))
    (hnone : ∀ decl ∈ (emit assembled.decls).decls, decl.key? ≠ some (.type name)) :
    ToldOf bindings.report.diagnostics name := by
  have hname := hends.sound.consistent.foreign_eq hbuilt
  have htype : .type type ∈ assembled.decls := by
    refine (hends.mem_decls_iff type).mpr ((hends.sound.consistent.mem_built_iff type).mpr ?_)
    rw [hname, hbuilt]
  have hkey : (Decl.type type).key? = some (.type name) := by rw [← hname]; rfl
  obtain ⟨keys, hkeys, hmem⟩ := Emission.exists_mem_cycles_iff.mpr
    (Emission.onCycle_of_not_emitted htype hkey hnone)
  refine ⟨.cycle (keys.map Key.name), ?_,
    Or.inl ⟨rfl, keys.map Key.name, List.mem_map.mpr ⟨_, hmem, rfl⟩, rfl⟩⟩
  rw [h.diagnostics_eq, diagnostics_emit_eq]
  exact List.mem_append_right _ (List.mem_append_right _ (List.mem_map.mpr ⟨keys, hkeys, rfl⟩))

/-- **Whatever is lacking is accounted for.** In every run, a diagnostic names a type that is
lacking, or a type that extends it, directly or through others. If a class or an interface of its
name is listed, the type is named itself. -/
theorem lacking_accounted (sources : List String) (symbols : List Symbol) (config : Config)
    (count : Option ℕ) :
    let context : Context := ⟨.ofSymbols sources symbols, config⟩
    ∃ assembled bindings, RunOn context count assembled bindings ∧
      ∀ name, Lacks (emit assembled.decls).decls name →
        context.Accounted bindings.report.diagnostics name ∧
        ((∃ ref ∈ context.listed count, (context.symbol ref).kind.isClassLike = true ∧
            (context.symbol ref).name = name) → ToldOf bindings.report.diagnostics name) := by
  intro context
  have hindexed : context.Indexed := Context.indexed_ofSymbols sources symbols config
  obtain ⟨assembled, last, harises⟩ := Context.exists_arises hindexed count
  obtain ⟨bindings, hrun⟩ := exists_runOn harises.assemble_eq
  have hends := harises.ends
  refine ⟨assembled, bindings, hrun, fun name ⟨⟨decl, hdecl, hdep⟩, hnone⟩ => ⟨?_, ?_⟩⟩
  · -- something is known of each type that is depended upon
    have hmem := hends.mem_of_dependency decl (Emission.mem_of_mem_emit hdecl) name hdep
    rw [Std.TreeMap.mem_iff_isSome_getElem?] at hmem
    obtain ⟨progress, hprogress⟩ := Option.isSome_iff_exists.mp hmem
    cases progress with
    | built type => exact Or.inl (hrun.toldOf_of_built hends hprogress hnone)
    | unbuildable =>
      have haccounted := harises.accounts hindexed name hprogress
      rw [← harises.diagnostics_eq] at haccounted
      exact hrun.diagnostics_eq ▸ haccounted.append _
    | underConstruction => exact absurd hprogress (hends.sound.idle name)
  · rintro ⟨ref, href, hclass, rfl⟩
    rcases harises.told_or_built hindexed href hclass with htold | ⟨type, hbuilt⟩
    · rw [← harises.diagnostics_eq] at htold
      exact hrun.diagnostics_eq ▸ htold.append _
    · exact hrun.toldOf_of_built hends hbuilt hnone

/-! ### A type that goes unnamed -/

section Hierarchy

/-- A class that extends another, which extends a third one. The first is listed, together with a
variable of the second, and the third is denied. -/
private def hierarchy : Context :=
  ⟨.ofSymbols [] [(Symbol.ofClass "Circle").extending "Shape", .ofGlobal "shape" (.named "Shape"),
    (Symbol.ofClass "Shape").extending "Node", .ofClass "Node"], Config.empty.deny ["Node"]⟩

/-- **A type can be lacking without being named.** The second class fails for the sake of the first,
and the diagnostic only names the first and the third. -/
theorem lacking_unnamed : ∃ assembled bindings, RunOn hierarchy (some 2) assembled bindings ∧
    Lacks (emit assembled.decls).decls "Shape" ∧ ¬ ToldOf bindings.report.diagnostics "Shape" := by
  have heval : (hierarchy.assemble (hierarchy.listed (some 2))).toOption.map
      (fun assembled => (assembled.decls, assembled.report.diagnostics)) =
      some ([.global ⟨⟨"shape", "shape"⟩, .declared ⟨"Shape", "Shape"⟩⟩],
        [.skipped "skipping `Circle`: refused `Node`: denylisted"]) := by decide +kernel
  obtain ⟨assembled, hassemble, hread⟩ := Context.exists_assembled_of_read heval
  obtain ⟨bindings, hrun⟩ := exists_runOn hassemble
  obtain ⟨hdecls, htold⟩ := Prod.mk.inj hread
  have hemit : emit assembled.decls =
      emit [.global ⟨⟨"shape", "shape"⟩, .declared ⟨"Shape", "Shape"⟩⟩] := congrArg emit hdecls
  refine ⟨assembled, bindings, hrun, ?_, ?_⟩
  · rw [hemit]
    constructor
    · decide +kernel
    · decide +kernel
  · have hnone :
        (emit [.global ⟨⟨"shape", "shape"⟩,
          .declared ⟨"Shape", "Shape"⟩⟩]).report.diagnostics = [] := by
      decide +kernel
    rw [hrun.diagnostics_eq, htold, hemit, hnone, List.append_nil]
    rintro ⟨diagnostic, hmem, hnames⟩
    rw [List.mem_singleton.mp hmem] at hnames
    rcases hnames with ⟨hkind, -⟩ | ⟨-, hinfix⟩
    · exact nomatch hkind
    · exact absurd hinfix (by decide +kernel)

end Hierarchy

end Bindery.Bindings
