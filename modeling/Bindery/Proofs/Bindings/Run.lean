import Bindery.Bindings
import Bindery.Proofs.Assembly.Skips
import Bindery.Proofs.Emission.Order

/-!
# Generation runs

A generation run never fails, be it on all symbols of a table (`Bindery.Bindings.exists_run`) or on
the first of them (`Bindery.Bindings.exists_runOn`). Its bindings are the text of what is emitted of
the assembled module, and its diagnostics are those of the module followed by those of the emission.
Some of them are about what is skipped (`Bindery.Bindings.Run.skipped_eq`), the others are about
cycles (`Bindery.Bindings.Run.cycles_eq`).
-/

namespace Bindery.Bindings

open Assembly (Assembled Context State)
open Decl (Key)

variable {context : Context} {assembled : Assembled} {bindings : Bindings}

/-- **A run on some listed symbols** of a table: so many of the first ones, or all. -/
structure RunOn (context : Context) (count : Option ℕ) (assembled : Assembled)
    (bindings : Bindings) : Prop where
  assemble_eq : context.assemble (context.listed count) = .ok assembled
  generate_eq : generate context.table context.config count = .ok bindings
  text_eq : bindings.text = Emission.render context.table.sources (emit assembled.decls).decls
  diagnostics_eq : bindings.report.diagnostics = assembled.report.diagnostics ++
    (emit assembled.decls).report.diagnostics
  emitted_eq : bindings.emitted = (emit assembled.decls).decls.length

/-- **A run never fails** once the module is assembled. -/
theorem exists_runOn {count : Option ℕ}
    (hassemble : context.assemble (context.listed count) = .ok assembled) :
    ∃ bindings, RunOn context count assembled bindings := by
  obtain ⟨summary, hgenerate⟩ : ∃ summary, generate context.table context.config count = .ok
      { text := Emission.render context.table.sources (emit assembled.decls).decls
        report := assembled.report ++ (emit assembled.decls).report ++ .info summary
        emitted := (emit assembled.decls).decls.length } := by
    rw [generate]
    simp only [hassemble]
    exact ⟨_, rfl⟩
  exact ⟨_, hassemble, hgenerate, rfl, List.append_nil _, rfl⟩

/-- **A run on all symbols** of a table: the module that is assembled, and the bindings that come
of it. -/
structure Run (context : Context) (assembled : Assembled) (bindings : Bindings) : Prop where
  assemble_eq : context.assemble (context.listed none) = .ok assembled
  generate_eq : generate context.table context.config none = .ok bindings
  text_eq : bindings.text = Emission.render context.table.sources (emit assembled.decls).decls
  diagnostics_eq : bindings.report.diagnostics = assembled.report.diagnostics ++
    (emit assembled.decls).report.diagnostics
  emitted_eq : bindings.emitted = (emit assembled.decls).decls.length

/-- **A run on all symbols never fails.** -/
theorem exists_run (hindexed : context.Indexed) :
    ∃ assembled bindings values last, Run context assembled bindings ∧
      context.Assembles assembled values last := by
  obtain ⟨assembled, values, last, hassembles⟩ := Context.exists_assembles hindexed
  obtain ⟨bindings, hrun⟩ := exists_runOn hassembles.assemble_eq
  exact ⟨assembled, bindings, values, last, ⟨hrun.assemble_eq, hrun.generate_eq, hrun.text_eq,
    hrun.diagnostics_eq, hrun.emitted_eq⟩, hassembles⟩

/-! ### Diagnostics by kind -/

/-- What a run reports of skipped declarations and members. -/
def skipped (bindings : Bindings) : List Diagnostic :=
  bindings.report.diagnostics.filter (·.kind = .skipped)

/-- What a run reports of cycles. -/
def cycles (bindings : Bindings) : List Diagnostic :=
  bindings.report.diagnostics.filter (·.kind = .cycle)

theorem diagnostics_emit_eq (decls : List Decl) : (emit decls).report.diagnostics =
    (Emission.reused decls).map Emission.reusedDiagnostic ++
      (Emission.cycles decls).map fun keys => .cycle (keys.map Key.name) := by
  rw [Emission.diagnostics_emit,
    Emission.flatMap_groupDiagnostics fun _ => Emission.ne_nil_of_mem_groups]
  rfl

theorem filter_eq_nil_of_kind {diagnostics : List Diagnostic} {kind other : Diagnostic.Kind}
    (h : ∀ diagnostic ∈ diagnostics, diagnostic.kind = other) (hne : other ≠ kind) :
    diagnostics.filter (·.kind = kind) = [] :=
  List.filter_eq_nil_iff.mpr fun diagnostic hmem hkind =>
    hne ((h diagnostic hmem).symm.trans (of_decide_eq_true hkind))

theorem filter_eq_self_of_kind {diagnostics : List Diagnostic} {kind : Diagnostic.Kind}
    (h : ∀ diagnostic ∈ diagnostics, diagnostic.kind = kind) :
    diagnostics.filter (·.kind = kind) = diagnostics :=
  List.filter_eq_self.mpr fun diagnostic hmem => decide_eq_true (h diagnostic hmem)

theorem kind_reusedDiagnostic {decls : List Decl} : ∀ diagnostic ∈
    (Emission.reused decls).map Emission.reusedDiagnostic, diagnostic.kind = .skipped := by
  intro diagnostic hmem
  obtain ⟨key, -, rfl⟩ := List.mem_map.mp hmem
  rfl

theorem kind_cycles {decls : List Decl} : ∀ diagnostic ∈ (Emission.cycles decls).map
    fun keys => Diagnostic.cycle (keys.map Key.name), diagnostic.kind = .cycle := by
  intro diagnostic hmem
  obtain ⟨keys, -, rfl⟩ := List.mem_map.mp hmem
  rfl

namespace Run

variable (h : Run context assembled bindings)

include h

/-- **What is skipped** in a run: what the module skips, and later declarations with keys that are
there already. -/
theorem skipped_eq (hskips : ∀ diagnostic ∈ assembled.report.diagnostics,
    diagnostic.kind = .skipped) : skipped bindings = assembled.report.diagnostics ++
      (Emission.reused assembled.decls).map Emission.reusedDiagnostic := by
  rw [skipped, h.diagnostics_eq, diagnostics_emit_eq, List.filter_append, List.filter_append,
    filter_eq_self_of_kind hskips, filter_eq_self_of_kind kind_reusedDiagnostic,
    filter_eq_nil_of_kind kind_cycles (by decide), List.append_nil]

/-- **The cycles of a run** are those of the declarations that are assembled. -/
theorem cycles_eq (hskips : ∀ diagnostic ∈ assembled.report.diagnostics,
    diagnostic.kind = .skipped) : cycles bindings =
      (Emission.cycles assembled.decls).map fun keys => .cycle (keys.map Key.name) := by
  rw [cycles, h.diagnostics_eq, diagnostics_emit_eq, List.filter_append, List.filter_append,
    filter_eq_nil_of_kind hskips (by decide),
    filter_eq_nil_of_kind kind_reusedDiagnostic (by decide), filter_eq_self_of_kind kind_cycles]
  rfl

end Run

end Bindery.Bindings
