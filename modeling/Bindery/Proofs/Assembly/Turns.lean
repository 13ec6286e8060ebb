import Bindery.Proofs.Assembly.Module
import Bindery.Proofs.Assembly.Shown

/-!
# Turn by turn

Each listed symbol has its **turn**, and there are two kinds of turns
(`Bindery.Assembly.Context.Turn`). The first type of a name makes a request. Any other symbol
stands **aside**: it is a variable or a function, or another type has its name. What it comes to
(`Bindery.Assembly.Context.values`) and what is told of it
(`Bindery.Assembly.Context.omissions`) depends on the symbol alone.

Where all symbols of a table are listed, nothing waits after the last turn. So the module consists
of the types that were built, followed by what the other symbols came to, and whatever is told of
it is told in some turn (`Bindery.Assembly.Context.exists_assembles`).
-/

namespace Bindery.Assembly.Context

open Decl (TypeDecl)

variable {context other : Context} {state next last : State context.table.size}
  {ref : context.Ref} {refs : List context.Ref} {decls rest : List Decl}

/-! ### Standing aside -/

/-- **What a symbol comes to aside from requests**: a class or an interface is left out, as there
is another type of its name. -/
def aside (context : Context) (symbol : Symbol) : context.Attempt (List Decl) := do
  match symbol.kind with
  | .global => return [.global (← context.global symbol)]
  | .function => return (← context.function symbol).map .signature
  | .classType | .interfaceType =>
    Attempt.tell (.skipped ("skipping duplicate declaration of `" ++ symbol.name ++ "`"))
    return []

/-- The declarations that a symbol comes to. -/
def values (context : Context) (symbol : Symbol) : List Decl := kept (context.aside symbol).outcome

/-- **What is told of a symbol** that stands aside. -/
def omissions (context : Context) (symbol : Symbol) : List Diagnostic :=
  (context.aside symbol).shown.2 ++
    (absorb symbol.name (context.aside symbol).outcome).2.diagnostics

theorem shown_aside_global {symbol : Symbol} (hkind : symbol.kind = .global) :
    (context.aside symbol).shown = ((context.global symbol).outcome.map fun global =>
      [.global global], (context.global symbol).notes.report.diagnostics) := by
  rw [aside, hkind]
  exact Attempt.shown_map _ _

theorem shown_aside_function {symbol : Symbol} (hkind : symbol.kind = .function) :
    (context.aside symbol).shown = ((context.function symbol).outcome.map fun signatures =>
      signatures.map .signature, (context.function symbol).notes.report.diagnostics) := by
  rw [aside, hkind]
  exact Attempt.shown_map _ _

theorem shown_aside_classLike {symbol : Symbol} (hclass : symbol.kind.isClassLike = true) :
    (context.aside symbol).shown = (.ok [],
      [.skipped ("skipping duplicate declaration of `" ++ symbol.name ++ "`")]) := by
  rw [aside]
  cases hkind : symbol.kind with
  | classType => rfl
  | interfaceType => rfl
  | function => exact absurd (hkind ▸ hclass) (by decide)
  | global => exact absurd (hkind ▸ hclass) (by decide)

/-! ### Turns -/

/-- **One turn**: the symbol stands aside, or it makes a request. -/
inductive Turn (context : Context) (state : State context.table.size) (ref : context.Ref) :
    List Decl → State context.table.size → Prop
  | aside {last : State context.table.size} (hlater : ¬ context.IsFirst ref)
    (hmemo : last.memo = state.memo) (hbuilt : last.built = state.built)
    (htold : last.report.diagnostics =
      state.report.diagnostics ++ context.omissions (context.symbol ref)) :
    Turn context state ref (context.values (context.symbol ref)) last
  | request {outcome : Except Failure TypeDecl} {last : State context.table.size}
    (hfirst : context.IsFirst ref) (hbuilds : context.Builds state ref outcome last) :
    Turn context state ref [] (last.tell (absorb (context.symbol ref).name outcome).2)

/-- **The turns of some symbols**, one after the other. -/
inductive Turns (context : Context) :
    State context.table.size → List context.Ref → List Decl → State context.table.size → Prop
  | nil (state : State context.table.size) : Turns context state [] [] state
  | cons {state next last : State context.table.size} {ref : context.Ref}
    {refs : List context.Ref} {decls rest : List Decl} (hsound : state.Sound context nothing)
    (hturn : context.Turn state ref decls next) (hrest : Turns context next refs rest last) :
    Turns context state (ref :: refs) (decls ++ rest) last

theorem Indexed.isClassLike_of_isFirst (hindexed : context.Indexed) (hfirst : context.IsFirst ref) :
    (context.symbol ref).kind.isClassLike = true :=
  (hindexed.isFirst_iff.mp hfirst).1

/-- A turn in which a symbol stands aside, given what it shows. -/
theorem turn_of_shown {outcome : Except Failure (List Decl)} {told : List Diagnostic}
    (hlater : ¬ context.IsFirst ref)
    (hshown : (context.aside (context.symbol ref)).shown = (outcome, told))
    (hmemo : last.memo = state.memo) (hbuilt : last.built = state.built)
    (htold : last.report.diagnostics = state.report.diagnostics ++ told) :
    context.Turn state ref (kept outcome)
      (last.tell (absorb (context.symbol ref).name outcome).2) := by
  have houtcome : (context.aside (context.symbol ref)).outcome = outcome := congrArg Prod.fst hshown
  have hvalues : context.values (context.symbol ref) = kept outcome := by rw [values, houtcome]
  rw [← hvalues]
  refine .aside hlater hmemo hbuilt ?_
  rw [omissions, hshown, houtcome, ← List.append_assoc, ← htold]
  rfl

theorem absorb_map_snd {α β : Type} (name : String) (outcome : Except Failure α) (f : α → β) :
    (absorb name (outcome.map f)).2 = (absorb name outcome).2 := by
  cases outcome with
  | ok value => rfl
  | error failure =>
    change (absorb name (.error failure)).2 = (absorb name (.error failure)).2
    rw [absorb, absorb]
    split <;> rfl

theorem kept_map_nil {α : Type} (outcome : Except Failure α) :
    kept (outcome.map fun _ => []) = [] := by
  cases outcome <;> rfl

/-- A class or an interface makes a request, or stands aside if another type has its name. -/
theorem turn_classLike (hindexed : context.Indexed) (hsound : state.Sound context nothing)
    (hclass : (context.symbol ref).kind.isClassLike = true)
    (hbefore : context.IsFirst ref ∨ (context.symbol ref).name ∈ state.memo) :
    context.Turn state ref (kept (context.buildSymbol state ref).1)
      ((context.buildSymbol state ref).2.tell
        (absorb (context.symbol ref).name (context.buildSymbol state ref).1).2) := by
  rw [buildSymbol_of_isClassLike hclass]
  split
  · next hother =>
    have hlater : ¬ context.IsFirst ref := by
      intro hfirst
      rw [hsound.attributed, hfirst] at hother
      generalize state.memo[(context.symbol ref).name]? = progress? at hother
      cases progress? <;> simp at hother
    exact turn_of_shown hlater (shown_aside_classLike hclass) rfl rfl rfl
  · next hown =>
    have hfirst : context.IsFirst ref :=
      hbefore.elim id fun hknown => isFirst_of_declaredBy hindexed hsound hclass hknown hown
    rw [kept_map_nil, absorb_map_snd]
    exact .request hfirst (context.builds hindexed state ref)

/-- **Each listed symbol takes its turn.** -/
theorem turn_buildSymbol (hindexed : context.Indexed) (hsound : state.Sound context nothing)
    (hbefore : (context.symbol ref).kind.isClassLike = true →
      context.IsFirst ref ∨ (context.symbol ref).name ∈ state.memo) :
    context.Turn state ref (kept (context.buildSymbol state ref).1)
      ((context.buildSymbol state ref).2.tell
        (absorb (context.symbol ref).name (context.buildSymbol state ref).1).2) := by
  have hlater : (context.symbol ref).kind.isClassLike = false → ¬ context.IsFirst ref :=
    fun hvalue hfirst =>
      Bool.false_ne_true (hvalue.symm.trans (hindexed.isClassLike_of_isFirst hfirst))
  cases hkind : (context.symbol ref).kind with
  | global =>
    rw [buildSymbol, hkind]
    exact turn_of_shown (hlater (hkind ▸ rfl)) (shown_aside_global hkind) rfl rfl rfl
  | function =>
    rw [buildSymbol, hkind]
    exact turn_of_shown (hlater (hkind ▸ rfl)) (shown_aside_function hkind) rfl rfl rfl
  | classType =>
    have hclass : (context.symbol ref).kind.isClassLike = true := hkind ▸ rfl
    exact turn_classLike hindexed hsound hclass (hbefore hclass)
  | interfaceType =>
    have hclass : (context.symbol ref).kind.isClassLike = true := hkind ▸ rfl
    exact turn_classLike hindexed hsound hclass (hbefore hclass)

/-- **The first of some listed symbols has its turn**, and the others have theirs after it. -/
theorem exists_rest_of_buildListed (hindexed : context.Indexed)
    (hsound : state.Sound context nothing) (hfirsts : context.FirstsLead state (ref :: refs))
    (hlisted : context.buildListed state (ref :: refs) = (.ok decls, last)) :
    ∃ next rest, next = (context.buildSymbol state ref).2.tell
        (absorb (context.symbol ref).name (context.buildSymbol state ref).1).2 ∧
      decls = kept (context.buildSymbol state ref).1 ++ rest ∧
      next.Sound context nothing ∧ context.FirstsLead next refs ∧
      context.buildListed next refs = (.ok rest, last) := by
  obtain ⟨⟨hrecoverable, hleaves⟩, hknown⟩ := settles_buildSymbol hindexed hsound hfirsts.head
  obtain ⟨report, habsorb⟩ := exists_absorb (context.symbol ref).name hrecoverable
  -- the other symbols do not fail after this turn, so their declarations come behind its own
  have hnext := hleaves.tell report
  have hrest := hfirsts.tail hnext.grows hknown
  obtain ⟨rest, last', hlisted', -, -⟩ := exists_buildListed hindexed refs hnext.sound hrest
  rw [buildListed] at hlisted
  simp only [habsorb, hlisted'] at hlisted
  obtain ⟨⟨⟩, rfl⟩ := Prod.mk.inj hlisted
  exact ⟨_, rest, by rw [habsorb], rfl, hnext.sound, hrest, hlisted'⟩

/-- **All listed symbols take their turns.** -/
theorem turns_buildListed (hindexed : context.Indexed) (hsound : state.Sound context nothing)
    (hfirsts : context.FirstsLead state refs)
    (hlisted : context.buildListed state refs = (.ok decls, last)) :
    context.Turns state refs decls last := by
  induction refs generalizing state decls with
  | nil =>
    obtain ⟨⟨⟩, rfl⟩ := Prod.mk.inj hlisted
    exact .nil state
  | cons ref refs ih =>
    obtain ⟨next, rest, rfl, rfl, hnext, hrest, hlisted⟩ :=
      exists_rest_of_buildListed hindexed hsound hfirsts hlisted
    exact .cons hsound (turn_buildSymbol hindexed hsound hfirsts.head) (ih hnext hrest hlisted)

/-! ### All symbols of a table -/

/-- Nothing waits where all classes and interfaces are known. -/
theorem waiting_eq_nil (hindexed : context.Indexed) (hsound : state.Sound context nothing)
    (hknown : ∀ ref, (context.symbol ref).kind.isClassLike = true →
      (context.symbol ref).name ∈ state.memo) : context.waiting state = [] := by
  refine List.dropWhile_eq_nil_iff.mpr fun ref href => ?_
  have hfirst := hsound.covered.isFirst_of_pending ref href
  have hmem := hknown ref (hindexed.isClassLike_of_isFirst hfirst)
  rw [isNew, Std.TreeMap.contains_iff_mem.mpr hmem]
  rfl

theorem drain_of_waiting_eq_nil (hwaiting : context.waiting state = []) :
    context.drain state = (.ok (), { state with pending := [] }) := by
  rw [drain]
  split
  · rfl
  · next heq => exact absurd (heq.symm.trans hwaiting) (List.cons_ne_nil _ _)

/-- **How a module of all symbols comes about**: each symbol of the table takes its turn, and that
is all. -/
structure Assembles (context : Context) (assembled : Assembled) (values : List Decl)
    (last : State context.table.size) : Prop where
  assemble_eq : context.assemble (context.listed none) = .ok assembled
  turns : context.Turns (.initial _) (List.finRange context.table.size) values last
  decls_eq : assembled.decls = last.built.toList.map .type ++ values
  diagnostics_eq : assembled.report.diagnostics = last.report.diagnostics
  ends : ∃ final, context.Ends (context.listed none) assembled.decls final

/-- **A module of all symbols comes about turn by turn.** -/
theorem exists_assembles (hindexed : context.Indexed) :
    ∃ assembled values last, context.Assembles assembled values last := by
  have hfirsts : context.FirstsLead (.initial _) (context.listed none) :=
    firstsLead_listed hindexed none
  obtain ⟨values, last, hlisted, hleaves, hknown⟩ :=
    exists_buildListed hindexed (context.listed none) .initial hfirsts
  have hdrain := drain_of_waiting_eq_nil (waiting_eq_nil hindexed hleaves.sound
    fun ref => hknown ref (List.mem_finRange ref))
  obtain ⟨assembled, hassemble, hdecls, htold, hends⟩ := ends_of_drain hindexed hlisted hdrain
  exact ⟨assembled, values, last, hassemble, turns_buildListed hindexed .initial hfirsts hlisted,
    hdecls, htold, _, hends⟩

end Bindery.Assembly.Context
