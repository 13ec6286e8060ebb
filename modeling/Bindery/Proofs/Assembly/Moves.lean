import Bindery.Proofs.Assembly.Values

/-!
# Move by move

Where only the first symbols of a table are listed, others may be asked for later, because they
were met on the way. A run is then a sequence of **moves** (`Bindery.Assembly.Context.Move`): first
each listed symbol has its turn, and then those that wait make their requests, until none does.

Whatever each move keeps, all moves keep (`Bindery.Assembly.Context.Moves.keep`), and a module
consists of the types that its moves leave built, followed by what the listed symbols come to
(`Bindery.Assembly.Context.exists_arises`).
-/

namespace Bindery.Assembly.Context

open Decl (TypeDecl)

variable {context : Context} {state next last : State context.table.size} {ref : context.Ref}
  {refs listed : List context.Ref} {values : List Decl}

/-! ### Moves -/

/-- **One move** of a run on some listed symbols, and the symbol whose move it is. -/
inductive Move (context : Context) (listed : List context.Ref) :
    State context.table.size → context.Ref → State context.table.size → Prop
  /-- A listed symbol stands aside. Whatever it meets will have to wait. -/
  | aside {state next : State context.table.size} {ref : context.Ref} (href : ref ∈ listed)
    (hmemo : next.memo = state.memo) (hbuilt : next.built = state.built)
    (htold : next.report.diagnostics =
      state.report.diagnostics ++ context.omissions (context.symbol ref))
    (hmet : next.pending = state.pending ++ (context.aside (context.symbol ref)).notes.met) :
    Move context listed state ref next
  /-- The first type of a name makes its request: it is listed, or the first of those that wait. -/
  | request {state next : State context.table.size} {ref : context.Ref}
    {pending : List context.Ref} {outcome : Except Failure TypeDecl}
    (hasked : ref ∈ listed ∧ pending = state.pending ∨ context.waiting state = ref :: pending)
    (hfirst : context.IsFirst ref)
    (hbuilds : context.Builds { state with pending } ref outcome next) :
    Move context listed state ref (next.tell (absorb (context.symbol ref).name outcome).2)

/-- **Moves**, one after the other. -/
inductive Moves (context : Context) (listed : List context.Ref) :
    State context.table.size → List context.Ref → State context.table.size → Prop
  | nil (state : State context.table.size) : Moves context listed state [] state
  | cons {state next last : State context.table.size} {ref : context.Ref}
    {refs : List context.Ref} (hsound : state.Sound context nothing)
    (hmove : context.Move listed state ref next) (hrest : Moves context listed next refs last) :
    Moves context listed state (ref :: refs) last

namespace Moves

theorem append {more : List context.Ref} (h : context.Moves listed state refs next)
    (hmore : context.Moves listed next more last) :
    context.Moves listed state (refs ++ more) last := by
  induction h with
  | nil => exact hmore
  | cons hsound hmove _ ih => exact .cons hsound hmove (ih hmore)

/-- **What each move keeps, all moves keep.** -/
theorem keep {holds : State context.table.size → Prop} (h : context.Moves listed state refs last)
    (hkeep : ∀ {state next : State context.table.size} {ref : context.Ref},
      state.Sound context nothing → context.Move listed state ref next → holds state → holds next)
    (hstate : holds state) : holds last := by
  induction h with
  | nil => exact hstate
  | cons hsound hmove _ ih => exact ih (hkeep hsound hmove hstate)

end Moves

/-! ### The listed symbols -/

theorem met_map {α β : Type} (attempt : context.Attempt α) (f : α → β) :
    (attempt >>= fun value => pure (f value)).notes.met = attempt.notes.met := by
  obtain ⟨failure | value, notes⟩ := attempt
  · rfl
  · exact List.append_nil notes.met

/-- What waits after a symbol stood aside. -/
theorem pending_buildSymbol (hindexed : context.Indexed) (hsound : state.Sound context nothing)
    (hbefore : (context.symbol ref).kind.isClassLike = true →
      context.IsFirst ref ∨ (context.symbol ref).name ∈ state.memo)
    (hlater : ¬ context.IsFirst ref) : (context.buildSymbol state ref).2.pending =
      state.pending ++ (context.aside (context.symbol ref)).notes.met := by
  rw [aside]
  cases hkind : (context.symbol ref).kind with
  | global =>
    rw [buildSymbol, hkind]
    exact congrArg _ (met_map (context.global _) _).symm
  | function =>
    rw [buildSymbol, hkind]
    exact congrArg _ (met_map (context.function _) _).symm
  | classType | interfaceType =>
    have hclass : (context.symbol ref).kind.isClassLike = true := hkind ▸ rfl
    have hother : state.declaredBy[(context.symbol ref).name]?.any (· ≠ ref) = true :=
      by_contra fun hown => hlater ((hbefore hclass).elim id fun hknown =>
        isFirst_of_declaredBy hindexed hsound hclass hknown hown)
    rw [buildSymbol_of_isClassLike hclass, if_pos hother]
    exact (List.append_nil _).symm

/-- **The turn of a listed symbol is a move.** -/
theorem move_buildSymbol (hindexed : context.Indexed) (hsound : state.Sound context nothing)
    (hbefore : (context.symbol ref).kind.isClassLike = true →
      context.IsFirst ref ∨ (context.symbol ref).name ∈ state.memo) (href : ref ∈ listed) :
    context.Move listed state ref ((context.buildSymbol state ref).2.tell
      (absorb (context.symbol ref).name (context.buildSymbol state ref).1).2) := by
  have hturn := turn_buildSymbol hindexed hsound hbefore
  have hpending := pending_buildSymbol hindexed hsound hbefore
  -- so that the cases of the turn are told apart
  generalize kept (context.buildSymbol state ref).1 = decls at hturn
  generalize hnext : (context.buildSymbol state ref).2.tell _ = next at hturn ⊢
  cases hturn with
  | aside hlater hmemo hbuilt htold =>
    refine .aside href hmemo hbuilt htold ?_
    rw [← hnext, ← hpending hlater]
    rfl
  | request hfirst hbuilds => exact .request (Or.inl ⟨href, rfl⟩) hfirst hbuilds

/-- **The moves of the listed symbols.** -/
theorem moves_buildListed (hindexed : context.Indexed) (hsound : state.Sound context nothing)
    (hfirsts : context.FirstsLead state refs) (hsubset : refs ⊆ listed)
    (hlisted : context.buildListed state refs = (.ok values, last)) :
    context.Moves listed state refs last := by
  induction refs generalizing state values with
  | nil =>
    obtain ⟨-, rfl⟩ := Prod.mk.inj hlisted
    exact .nil state
  | cons ref refs ih =>
    obtain ⟨next, rest, rfl, -, hnext, hrest, hlisted⟩ :=
      exists_rest_of_buildListed hindexed hsound hfirsts hlisted
    obtain ⟨href, hsubset⟩ := List.cons_subset.mp hsubset
    exact .cons hsound (move_buildSymbol hindexed hsound hfirsts.head href)
      (ih hnext hrest hsubset hlisted)

/-! ### The symbols that were met -/

/-- **The moves of the symbols that wait**, until none does. -/
theorem exists_moves_drain (hindexed : context.Indexed) (hsound : state.Sound context nothing) :
    ∃ refs last, context.Moves listed state refs last ∧
      context.drain state = (.ok (), { last with pending := [] }) := by
  fun_induction drain context state with
  | case1 state hwaiting => exact ⟨[], state, .nil state, rfl⟩
  | case2 state ref pending hwaiting result absorbed failure herror =>
    exact absurd herror (absorb_build_ne_error hindexed { state with pending } ref failure)
  | case3 state ref pending hwaiting result absorbed value hvalue ih =>
    obtain ⟨refs, last, hmoves, hdrain⟩ := ih (hsound.answer hindexed hwaiting absorbed.2)
    have hfirst := hsound.covered.isFirst_of_pending ref
      (mem_pending_of_waiting hwaiting List.mem_cons_self)
    have hbuilds := context.builds hindexed { state with pending } ref
    have hmove : context.Move listed state ref _ := .request (Or.inr hwaiting) hfirst hbuilds
    exact ⟨ref :: refs, last, .cons hsound hmove hmoves, hdrain⟩

/-! ### Modules -/

/-- **How a module arises** from the listed symbols: these have their moves first, and others have
theirs afterwards. The types that were built come before what the listed symbols come to. -/
structure Arises (context : Context) (count : Option ℕ) (assembled : Assembled)
    (last : State context.table.size) : Prop where
  assemble_eq : context.assemble (context.listed count) = .ok assembled
  moves : ∃ later, context.Moves (context.listed count) (.initial _)
    (context.listed count ++ later) last
  decls_eq : assembled.decls = last.built.toList.map .type ++
    (context.listed count).flatMap fun ref => context.values (context.symbol ref)
  diagnostics_eq : assembled.report.diagnostics = last.report.diagnostics
  ends : context.Ends (context.listed count) assembled.decls { last with pending := [] }

/-- **A module always arises.** -/
theorem exists_arises (hindexed : context.Indexed) (count : Option ℕ) :
    ∃ assembled last, context.Arises count assembled last := by
  have hfirsts : context.FirstsLead (.initial _) (context.listed count) :=
    firstsLead_listed hindexed count
  obtain ⟨values, state, hlisted, hleaves, -⟩ :=
    exists_buildListed hindexed (context.listed count) .initial hfirsts
  obtain ⟨later, last, hlater, hdrain⟩ := exists_moves_drain hindexed hleaves.sound
  obtain ⟨assembled, hassemble, hdecls, htold, hends⟩ := ends_of_drain hindexed hlisted hdrain
  have hvalues := (turns_buildListed hindexed .initial hfirsts hlisted).values_eq hindexed
  have hmoves := moves_buildListed hindexed .initial hfirsts (List.Subset.refl _) hlisted
  exact ⟨assembled, last, hassemble, ⟨later, hmoves.append hlater⟩, hvalues ▸ hdecls, htold, hends⟩

end Bindery.Assembly.Context
