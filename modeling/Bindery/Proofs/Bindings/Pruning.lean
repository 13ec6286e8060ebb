import Bindery.Proofs.Assembly.MemberRemoval
import Bindery.Proofs.Assembly.Mirroring
import Bindery.Proofs.Bindings.Run

/-!
# To deny is to delete

What the configuration denies could as well not be there. Where denied variables and functions are
deleted from the symbols, and denied fields and methods from their members
(`Bindery.Config.prune`), a run gives the same text, and only the denials are missing from what it
reports (`Bindery.Bindings.run_prune`).
-/

namespace Bindery

/-! ### Deleting what is denied -/

namespace Config

/-- **A symbol is denied** if the denylist has its name, its namespace, or its name under its
namespace. -/
theorem denies_iff {config : Config} {scope? : Option String} {name : String} :
    config.denies scope? name = true ↔ name ∈ config.denylist ∨
      ∃ scope ∈ scope?, scope ∈ config.denylist ∨ scope ++ ":" ++ name ∈ config.denylist := by
  cases scope? with
  | none => simp [denies]
  | some scope => simp [denies, qualified]

/-- Whether a symbol is a variable or a function that is denied. -/
def omits (config : Config) (symbol : Symbol) : Bool :=
  !symbol.kind.isClassLike && config.denies symbol.scope symbol.name

/-- **The symbols without what is denied**: denied variables and functions, and denied fields and
methods. -/
def prune (config : Config) (symbols : List Symbol) : List Symbol :=
  (symbols.filter fun symbol => !config.omits symbol).map config.stripped

end Config

namespace Assembly.Context

open Decl (TypeDecl)

variable {context : Context}

/-- A symbol and the same without its denied members. -/
def stripping (hindexed : context.Indexed) : context.Likeness where
  symbols symbol symbol' := symbol' = context.config.stripped symbol
  types := Eq
  telling := .inOrder
  taken := context.denials
  eq_with := by
    rintro symbol _ rfl
    rfl
  ident_eq := @Likeness.ident_eq_of_eq
  parent? := @Likeness.rel_parent?_of_eq
  typeOn := by
    rintro symbol _ parent _ rfl hparent
    obtain rfl := rel_eq_iff.mp hparent
    obtain ⟨type, told, told', hfirst, hsecond, htold⟩ := typeOn_stripped hindexed symbol parent
    exact ⟨type, type, told, told', hfirst, hsecond, rfl, htold⟩

theorem omittable_omits : context.Omittable context.config.omits := by
  intro symbol homit
  rw [Config.omits, Bool.and_eq_true, Bool.not_eq_true'] at homit
  exact homit

/-- The symbols that the types of a module were built from. -/
def originals (context : Context) (decls : List Decl) : List Symbol :=
  (types decls).filterMap context.original?

/-- What is told of these symbols is told of the types. -/
theorem flatMap_originals (decls : List Decl) (f : Symbol → List Diagnostic) :
    (context.originals decls).flatMap f =
      (types decls).flatMap fun type => (context.original? type).elim [] f := by
  rw [originals]
  induction types decls with
  | nil => rfl
  | cons type types ih =>
    rw [List.filterMap_cons, List.flatMap_cons, ← ih]
    cases context.original? type with
    | none => rfl
    | some symbol => rw [List.flatMap_cons, Option.elim_some]

end Assembly.Context

namespace Bindings

open Assembly (Assembled Context State)

/-- **To deny is to delete.** A run on the symbols without what is denied gives the same text, and
reports the same in the same order, except for one denial for each symbol that was deleted, and one
for each member that was deleted from a symbol that a type is built from. -/
theorem run_prune (sources : List String) (symbols : List Symbol) (config : Config) :
    let context : Context := ⟨.ofSymbols sources symbols, config⟩
    let pruned : Context := ⟨.ofSymbols sources (config.prune symbols), config⟩
    ∃ assembled assembled' bindings bindings', Run context assembled bindings ∧
      Run pruned assembled' bindings' ∧ bindings'.text = bindings.text ∧
      TakeOut bindings.report.diagnostics
        ((symbols.filter config.omits).map Context.symbolDenial ++
          (context.originals assembled.decls).flatMap context.denials)
        bindings'.report.diagnostics := by
  intro context pruned
  have hindexed : context.Indexed := Context.indexed_ofSymbols sources symbols config
  have hindexed' : pruned.Indexed :=
    Context.indexed_ofSymbols sources (config.prune symbols) config
  obtain ⟨assembled, bindings, values, last, hrun, hassembles⟩ := exists_run hindexed
  obtain ⟨assembled', bindings', values', last', hrun', hassembles'⟩ := exists_run hindexed'
  have hall : List.Forall₂ (Context.stripping hindexed).symbols
      (symbols.filter fun symbol => !config.omits symbol) (config.prune symbols) :=
    List.forall₂_map_right_iff.mpr (List.forall₂_same.mpr fun _ _ => rfl)
  have hmirrors : Context.Mirrors pruned (Context.stripping hindexed) :=
    .of_forall₂ Context.omittable_omits hindexed hindexed' rfl hall
  obtain ⟨htypes, rfl, htells⟩ := hmirrors.assembles Context.omittable_omits
    (.of_forall₂ Context.omittable_omits hindexed hindexed' hall) hassembles hassembles'
  change List.Forall₂ Eq _ _ at htypes
  rw [List.forall₂_eq_eq_eq] at htypes
  -- the types and the values are the same in both modules, so the same is emitted
  have hdecls : assembled'.decls = assembled.decls := by
    rw [hassembles'.decls_eq_append hindexed', ← htypes, ← hassembles.decls_eq_append hindexed]
  refine ⟨assembled, assembled', bindings, bindings', hrun, hrun', ?_, ?_⟩
  · rw [hrun.text_eq, hrun'.text_eq, hdecls]
    rfl
  · rw [hrun.diagnostics_eq, hrun'.diagnostics_eq, hdecls, Context.flatMap_originals]
    exact (htells.append (.none _)).of_perm (.of_eq (List.append_nil _))

end Bindings

end Bindery
