import Bindery.Proofs.Assembly.Within
import Bindery.Proofs.Bindings.Run

/-!
# Runs come to an end

Types may inherit from themselves, in circles of any length, and they may refer to each other in any
way. All the same, requests are nested no deeper than there are symbols, and the queue of what was
met is empty after so many rounds as can be told beforehand. What happens in between goes through
lists that are given.

In the end there is always a result. The only thing that can go wrong with a member is that a type
has no rendering, as to refer to a type is not to ask for it; so what is recovered from is never a
refusal. And whatever goes wrong with a symbol is something to go on without. The notion that says
all this is `Bindery.Bindings.Terminates`, and it holds of every table
(`Bindery.Bindings.table_terminates`).
-/

namespace Bindery

namespace Assembly

variable {n : ℕ} {α : Type}

/-- **An attempt only lacks renderings**: there is no other way for it to fail. -/
def Attempt.OnlyLacks (attempt : Attempt n α) : Prop :=
  ∀ failure, attempt.outcome = .error failure → failure.IsUnrepresentable

end Assembly

namespace Bindings

open Assembly (Context State)

/-- **Runs on a table terminate**, and there is a result in the end. -/
structure Terminates (context : Context) : Prop where
  /-- Requests are nested no deeper than there are symbols. -/
  requests : ∀ state ref depth, context.table.size < depth →
    context.buildWithin depth state ref = some (context.build state ref)
  /-- Whatever is known before, a module is assembled: its symbols have their turns, and after so
  many rounds the queue is empty. -/
  modules : ∀ state listed depth rounds, context.table.size < depth →
    context.demand state + (listed.map fun ref => (context.symbol ref).mentions).sum < rounds →
    ∃ values next last assembled,
      context.buildListedWithin depth state listed = some (.ok values, next) ∧
      context.drainWithin depth rounds next = some (.ok (), last) ∧
      context.assembleFrom state listed = .ok assembled ∧
      assembled.decls = last.built.toList.map .type ++ values
  /-- What is recovered from among the members of a type is that there is no rendering: for
  constructors, for fields, and for methods. -/
  recovered : (∀ params, (context.params params).OnlyLacks) ∧
    (∀ type?, (context.resolveDeclared type?).OnlyLacks) ∧
    ∀ name owner number signature, (context.signature name owner number signature).OnlyLacks
  /-- So no member fails. -/
  members : ∀ owner parent built member,
    ∃ more, (context.addMember owner parent built member).outcome = .ok more
  /-- Whatever goes wrong with a listed symbol, or with one that was met, can be done without. -/
  absorbed : ∀ state ref failure,
    (context.buildSymbol state ref).1 = .error failure ∨
      (context.build state ref).1 = .error failure → failure.isRecoverable = true
  /-- A run has a result. -/
  runs : ∀ count, ∃ bindings, generate context.table context.config count = .ok bindings

variable {context : Context}

/-- **A module is assembled within bounds.** -/
theorem exists_assembled_within (hindexed : context.Indexed) (state : State context.table.size)
    (listed : List context.Ref) {depth rounds : ℕ} (hdepth : context.table.size < depth)
    (hrounds : context.demand state +
      (listed.map fun ref => (context.symbol ref).mentions).sum < rounds) :
    ∃ values next last assembled,
      context.buildListedWithin depth state listed = some (.ok values, next) ∧
      context.drainWithin depth rounds next = some (.ok (), last) ∧
      context.assembleFrom state listed = .ok assembled ∧
      assembled.decls = last.built.toList.map .type ++ values := by
  obtain ⟨next, hlisted, -⟩ := Context.exists_passes_listed hindexed state listed
  obtain ⟨last, hdrain, -⟩ := Context.exists_passes_waiting hindexed next
  have hdemand := Context.demand_buildListed_le hindexed state listed
  rw [hlisted] at hdemand
  obtain ⟨assembled, hassemble, hdecls⟩ : ∃ assembled,
      context.assembleFrom state listed = .ok assembled ∧ assembled.decls =
        last.built.toList.map .type ++
          listed.flatMap fun ref => context.values (context.symbol ref) := by
    rw [Context.assembleFrom, hlisted]
    simp only [hdrain]
    exact ⟨_, rfl, rfl⟩
  refine ⟨_, next, last, assembled, ?_, ?_, hassemble, hdecls⟩
  · rw [Context.buildListedWithin_eq state listed hdepth, hlisted]
  · rw [Context.drainWithin_eq hindexed next hdepth (Nat.lt_of_le_of_lt hdemand hrounds), hdrain]

/-- **Runs on any table terminate**, whatever its symbols extend and refer to. -/
theorem table_terminates (sources : List String) (symbols : List Symbol) (config : Config) :
    Terminates ⟨.ofSymbols sources symbols, config⟩ := by
  have hindexed : Context.Indexed ⟨.ofSymbols sources symbols, config⟩ :=
    Context.indexed_ofSymbols sources symbols config
  constructor
  case requests => exact fun state ref _ hdepth => Context.buildWithin_eq state ref hdepth
  case modules =>
    exact fun state listed _ _ hdepth hrounds =>
      exists_assembled_within hindexed state listed hdepth hrounds
  case recovered =>
    exact ⟨fun params => (Context.runs_params hindexed params).failed,
      fun type? => (Context.runs_resolveDeclared hindexed type?).failed,
      fun name owner number signature =>
        (Context.runs_signature hindexed name owner number signature).failed⟩
  case members =>
    exact fun owner parent built member =>
      (Context.runs_addMember hindexed owner parent built member).exists_value
  case absorbed =>
    rintro state ref failure (hsymbol | hbuild)
    · exact Context.isRecoverable_buildSymbol hindexed hsymbol
    · exact (Context.builds hindexed state ref).isRecoverable hbuild
  case runs =>
    intro count
    obtain ⟨assembled, -, hassemble, -⟩ := Context.exists_assemble hindexed count
    obtain ⟨bindings, hrun⟩ := exists_runOn hassemble
    exact ⟨bindings, hrun.generate_eq⟩

end Bindings

end Bindery
