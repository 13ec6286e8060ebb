import Bindery.Proofs.Assembly.Module
import Bindery.Proofs.Assembly.Tally

/-!
# What becomes of types over a whole run

A run may ask for types from outside, by any symbols and as often as it likes, before a module is
assembled on top of what is known by then. Nothing is asked of these symbols: they need not be
first types of their names, nor types at all. All requests of such a run, its own and those of the
module, are made one after the other (`Bindery.Assembly.Context.requests`).

Between two requests a state is **settled** (`Bindery.Assembly.State.Settled`): no type waits for
its parent, and the types were built once each, parents first. What is known of a type stays as it
is, so whoever asks for it again gets the type that was built, or is refused once more
(`Bindery.Assembly.Context.requests_settle`).
-/

namespace Bindery.Assembly

open Decl (TypeDecl)

/-! ### Settled states -/

/-- **Parents were built first**: the parent of each built type stands before it. -/
def State.ParentsFirst {n : ℕ} (state : State n) : Prop :=
  ∀ (i : ℕ) (type parent : TypeDecl), state.built[i]? = some type →
    type.parent? = some parent → ∃ j < i, state.built[j]? = some parent

/-- **Nothing is left half done**: the built types are those that the memo holds, each once and
after its parent, and no type is under construction. -/
structure State.Settled {n : ℕ} (state : State n) : Prop extends state.Consistent where
  idle : ∀ name : String, state.memo[name]? ≠ some .underConstruction
  nodup : (Context.builtNames state).Nodup
  parentsFirst : state.ParentsFirst

/-- **Whatever is known stays as it is** from one state to a later one. -/
def State.Keeps {n : ℕ} (state later : State n) : Prop :=
  ∀ (name : String) (progress : Progress), state.memo[name]? = some progress →
    later.memo[name]? = some progress

variable {context : Context} {state state' next last : State context.table.size}
  {ref : context.Ref} {type : TypeDecl} {outcome : Except Failure TypeDecl}

theorem State.ParentsFirst.enter (h : state.ParentsFirst) (name : String)
    (hparent : ∀ parent ∈ type.parent?, parent ∈ state.built) :
    (state.enter name type).ParentsFirst := by
  intro i other parent hi hother
  change (state.built.push type)[i]? = some other at hi
  change ∃ j < i, (state.built.push type)[j]? = some parent
  rw [Array.getElem?_push] at hi
  split at hi
  · next hlast =>
    obtain rfl := Option.some.inj hi
    obtain ⟨j, hj, heq⟩ := Array.mem_iff_getElem.mp (hparent parent hother)
    refine ⟨j, hlast ▸ hj, ?_⟩
    rw [Array.getElem?_push_lt hj, heq]
  · obtain ⟨j, hj, heq⟩ := h i other parent hi hother
    have hsize := (Array.getElem?_eq_some_iff.mp heq).1
    refine ⟨j, hj, ?_⟩
    rw [Array.getElem?_push, if_neg (Nat.ne_of_lt hsize), heq]

/-- **A request builds parents first.** -/
theorem Context.Builds.parentsFirst (h : context.Builds state ref outcome state')
    (hindexed : context.Indexed) (hconsistent : state.Consistent) (hstate : state.ParentsFirst) :
    state'.ParentsFirst := by
  induction h with
  | known => exact hstate
  | denied => exact hstate
  | unfit => exact hstate
  | orphan hnew _ _ _ ih => exact ih (hconsistent.opening hnew) hstate
  | @top _ ref _ _ _ _ htype =>
    refine State.ParentsFirst.enter hstate (context.symbol ref).name fun parent hparent => ?_
    rw [parent?_of_typeOn hindexed htype] at hparent
    exact nomatch hparent
  | @child _ _ ref _ _ _ hnew _ _ hbuild htype ih =>
    have hopened : (State.opening _ _ ref).Consistent := hconsistent.opening hnew
    refine State.ParentsFirst.enter (ih hopened hstate) (context.symbol ref).name
      fun parent hparent => ?_
    rw [parent?_of_typeOn hindexed htype] at hparent
    obtain rfl := Option.some.inj hparent
    -- the parent was asked for just now, so the memo holds it, and so does the list
    have hlast := hbuild.consistent hindexed hopened
    have habove := hbuild.memo_of_ok rfl
    refine (hlast.mem_built_iff _).mpr ?_
    rw [hlast.foreign_eq habove, habove]

namespace State.Settled

theorem initial (n : ℕ) : (State.initial n).Settled where
  toConsistent := .initial n
  idle := fun name => by simp [State.initial]
  nodup := .nil
  parentsFirst := fun i type parent hi => by simp [State.initial] at hi

/-- Only the memo and the list of built types matter. -/
theorem congr (h : state.Settled) (hmemo : next.memo = state.memo)
    (hbuilt : next.built = state.built) : next.Settled where
  foreign_eq := by
    rw [hmemo]
    exact h.foreign_eq
  mem_built_iff := by
    rw [hmemo, hbuilt]
    exact h.mem_built_iff
  idle := by
    rw [hmemo]
    exact h.idle
  nodup := by
    rw [Context.builtNames, hbuilt]
    exact h.nodup
  parentsFirst := by
    rw [ParentsFirst, hbuilt]
    exact h.parentsFirst

/-- **A request leaves nothing half done**, whichever symbol makes it. -/
theorem build (h : state.Settled) (hindexed : context.Indexed) (ref : context.Ref) :
    (context.build state ref).2.Settled := by
  have hbuilds := context.builds hindexed state ref
  exact {
    toConsistent := hbuilds.consistent hindexed h.toConsistent
    idle := fun name hopen => h.idle name (hbuilds.underConstruction_iff.mp hopen)
    nodup := hbuilds.nodup_builtNames hindexed h.toConsistent h.nodup
    parentsFirst := hbuilds.parentsFirst hindexed h.toConsistent h.parentsFirst }

end State.Settled

namespace Context

/-! ### The requests of a run -/

/-- **A request that was made**: by which symbol, what was answered, and what was known then. -/
structure Request (context : Context) where
  ref : context.Ref
  answer : Except Failure TypeDecl
  after : State context.table.size

/-- The name of the type that was asked for. -/
def Request.name (request : context.Request) : String := (context.symbol request.ref).name

/-- A request by a symbol. -/
def request (context : Context) (state : State context.table.size) (ref : context.Ref) :
    context.Request :=
  ⟨ref, (context.build state ref).1, (context.build state ref).2⟩

/-- Requests from outside, one after the other. -/
def givenRequests (context : Context) :
    State context.table.size → List context.Ref → List context.Request
  | _, [] => []
  | state, ref :: refs =>
    context.request state ref :: context.givenRequests (context.build state ref).2 refs

/-- What is known after requests from outside. -/
def afterGiven (context : Context) (refs : List context.Ref) : State context.table.size :=
  refs.foldl (fun state ref => (context.build state ref).2) (.initial _)

/-- The requests of listed symbols: a class or an interface makes one, unless its type was first
asked for by another symbol. -/
def listedRequests (context : Context) :
    State context.table.size → List context.Ref → List context.Request
  | _, [] => []
  | state, ref :: refs =>
    let result := context.buildSymbol state ref
    let rest := context.listedRequests
      (result.2.tell (absorb (context.symbol ref).name result.1).2) refs
    if (context.symbol ref).kind.isClassLike ∧
        ¬ state.declaredBy[(context.symbol ref).name]?.any (· ≠ ref) then
      context.request state ref :: rest
    else rest

/-- The requests of the symbols that were met. -/
def waitingRequests (context : Context) (state : State context.table.size) :
    List context.Request :=
  match _hwaiting : context.waiting state with
  | [] => []
  | ref :: pending =>
    let request := context.request { state with pending } ref
    request :: waitingRequests context
      (request.after.tell (absorb (context.symbol ref).name request.answer).2)
termination_by context.unknown state.memo
decreasing_by
  have hnew := isNew_of_waiting _hwaiting
  exact unknown_build_lt hnew

/-- **All requests of a run**, in order: those from outside, those of the listed symbols, and those
of the symbols that were met. -/
def requests (context : Context) (given listed : List context.Ref) : List context.Request :=
  let state := context.afterGiven given
  context.givenRequests (.initial _) given ++ context.listedRequests state listed ++
    context.waitingRequests (context.buildListed state listed).2

/-! ### One request after the other -/

/-- **Requests lead from one state to another.** In between nothing becomes known of any type. -/
inductive Passes (context : Context) :
    State context.table.size → List context.Request → State context.table.size → Prop
  | refl (state : State context.table.size) : Passes context state [] state
  | request {state last : State context.table.size} {ref : context.Ref}
    {rest : List context.Request} (hrest : Passes context (context.build state ref).2 rest last) :
    Passes context state (context.request state ref :: rest) last
  | aside {state next last : State context.table.size} {requests : List context.Request}
    (hrest : Passes context next requests last) (hmemo : next.memo = state.memo)
    (hbuilt : next.built = state.built) : Passes context state requests last

namespace Passes

variable {made rest : List context.Request}

theorem append (h : context.Passes state made next) (hrest : context.Passes next rest last) :
    context.Passes state (made ++ rest) last := by
  induction h with
  | refl => exact hrest
  | request _ ih => exact .request (ih hrest)
  | aside _ hmemo hbuilt ih => exact .aside (ih hrest) hmemo hbuilt

/-- What is known at first is known after all requests, and after each of them. Requests for it
are answered by it. -/
theorem keeps (h : context.Passes state made last) (hindexed : context.Indexed) :
    state.Keeps last ∧ ∀ request ∈ made, state.Keeps request.after ∧
      ∀ progress, state.memo[request.name]? = some progress →
        request.answer = progress.answer request.name := by
  induction h with
  | refl => exact ⟨fun _ _ => id, fun _ hmem => absurd hmem List.not_mem_nil⟩
  | @request state last ref rest _ ih =>
    have hfirst : state.Keeps (context.build state ref).2 := fun _ _ hknown =>
      (context.builds hindexed state ref).memo_eq hknown
    refine ⟨fun name progress hknown => ih.1 name progress (hfirst name progress hknown), ?_⟩
    intro made hmade
    rcases List.mem_cons.mp hmade with rfl | hmade
    · exact ⟨hfirst, fun progress hknown => congrArg Prod.fst (build_of_known hknown)⟩
    · obtain ⟨hkeeps, hanswer⟩ := ih.2 made hmade
      exact ⟨fun name progress hknown => hkeeps name progress (hfirst name progress hknown),
        fun progress hknown => hanswer progress (hfirst _ progress hknown)⟩
  | aside _ hmemo _ ih =>
    simp only [State.Keeps, hmemo] at ih ⊢
    exact ih

/-- **Nothing is half done** after any of the requests. -/
theorem settled (h : context.Passes state made last) (hindexed : context.Indexed)
    (hstate : state.Settled) : last.Settled ∧ ∀ request ∈ made, request.after.Settled := by
  induction h with
  | refl => exact ⟨hstate, fun _ hmem => absurd hmem List.not_mem_nil⟩
  | @request state _ ref _ _ ih =>
    have hfirst := hstate.build hindexed ref
    obtain ⟨hlast, hrest⟩ := ih hfirst
    refine ⟨hlast, fun made hmade => ?_⟩
    rcases List.mem_cons.mp hmade with rfl | hmade
    · exact hfirst
    · exact hrest made hmade
  | aside _ hmemo hbuilt ih => exact ih (hstate.congr hmemo hbuilt)

end Passes

/-! ### Answers -/

/-- What is known of a type after a request for it, if it was not under construction before. -/
theorem Builds.memo_of_error (h : context.Builds state ref outcome state')
    (hidle : state.memo[(context.symbol ref).name]? ≠ some .underConstruction) {failure : Failure}
    (herror : outcome = .error failure) :
    state'.memo[(context.symbol ref).name]? = some .unbuildable := by
  cases h with
  | @known _ _ progress hknown =>
    cases progress with
    | built => exact nomatch herror
    | unbuildable => exact hknown
    | underConstruction => exact absurd hknown hidle
  | denied => rw [State.getElem?_memo_mark, if_pos rfl]
  | unfit => rw [State.getElem?_memo_mark, if_pos rfl]
  | orphan => rw [State.getElem?_memo_mark, if_pos rfl]
  | top => exact nomatch herror
  | child => exact nomatch herror

/-- **A request is answered like an earlier one** for the same name: with the same type, or by a
refusal if that one failed. -/
structure Request.Repeats (earlier later : context.Request) : Prop where
  same : ∀ type, earlier.answer = .ok type → later.answer = .ok type
  refused : ∀ failure, earlier.answer = .error failure →
    ∃ again : Failure, later.answer = .error again ∧ again = .refused later.name .unbuildable ∧
      again.message = "refused `" ++ later.name ++ "`: " ++ "previously unbuildable"

/-- **What becomes of types** over some requests and up to a last state. -/
structure Lifecycle (context : Context) (made : List context.Request)
    (last : State context.table.size) : Prop where
  settled : ∀ request ∈ made, request.after.Settled
  settled_last : last.Settled
  mem_built : ∀ request ∈ made, ∀ type, request.answer = .ok type → type ∈ request.after.built
  keeps : made.Pairwise fun earlier later => earlier.after.Keeps later.after
  keeps_last : ∀ request ∈ made, request.after.Keeps last
  repeats : made.Pairwise fun earlier later => earlier.name = later.name → earlier.Repeats later

/-- **What requests lead through** is a lifecycle, if it starts where nothing is half done. -/
theorem Passes.lifecycle {made : List context.Request} (h : context.Passes state made last)
    (hindexed : context.Indexed) (hstate : state.Settled) : context.Lifecycle made last := by
  induction h with
  | refl => exact ⟨fun _ hmem => absurd hmem List.not_mem_nil, hstate,
      fun _ hmem => absurd hmem List.not_mem_nil, .nil, fun _ hmem => absurd hmem List.not_mem_nil,
      .nil⟩
  | @request state last ref rest hrest ih =>
    have hbuilds := context.builds hindexed state ref
    have hafter := hstate.build hindexed ref
    have hrest' := ih hafter
    obtain ⟨hkeeps, hlater⟩ := hrest.keeps hindexed
    refine {
      settled := List.forall_mem_cons.mpr ⟨hafter, hrest'.settled⟩
      settled_last := hrest'.settled_last
      mem_built := List.forall_mem_cons.mpr ⟨fun type hok => ?_, hrest'.mem_built⟩
      keeps := .cons (fun later hmem => (hlater later hmem).1) hrest'.keeps
      keeps_last := List.forall_mem_cons.mpr ⟨hkeeps, hrest'.keeps_last⟩
      repeats := .cons (fun later hmem hname => ⟨fun type hok => ?_, fun failure herror => ?_⟩)
        hrest'.repeats }
    · have hmemo := hbuilds.memo_of_ok hok
      refine (hafter.mem_built_iff type).mpr ?_
      rw [hafter.foreign_eq hmemo]
      exact hmemo
    · refine (hlater later hmem).2 (.built type) ?_
      rw [← hname]
      exact hbuilds.memo_of_ok hok
    · refine ⟨_, (hlater later hmem).2 .unbuildable ?_, rfl, rfl⟩
      rw [← hname]
      exact hbuilds.memo_of_error (hstate.idle _) herror
  | aside _ hmemo hbuilt ih => exact ih (hstate.congr hmemo hbuilt)

/-! ### Whole runs -/

theorem passes_givenRequests (state : State context.table.size) (refs : List context.Ref) :
    context.Passes state (context.givenRequests state refs)
      (refs.foldl (fun state ref => (context.build state ref).2) state) := by
  induction refs generalizing state with
  | nil => exact .refl state
  | cons ref refs ih => exact .request (ih _)

/-- A symbol that makes no request leaves alone what is known of types. -/
theorem buildSymbol_aside (h : ¬ ((context.symbol ref).kind.isClassLike ∧
      ¬ state.declaredBy[(context.symbol ref).name]?.any (· ≠ ref))) :
    (context.buildSymbol state ref).2.memo = state.memo ∧
      (context.buildSymbol state ref).2.built = state.built := by
  by_cases hclass : (context.symbol ref).kind.isClassLike = true
  · rw [buildSymbol_of_isClassLike hclass, if_pos (by_contra fun hown => h ⟨hclass, hown⟩)]
    exact ⟨rfl, rfl⟩
  · rw [buildSymbol]
    cases hkind : (context.symbol ref).kind with
    | global => exact ⟨rfl, rfl⟩
    | function => exact ⟨rfl, rfl⟩
    | classType => exact absurd (hkind ▸ rfl) hclass
    | interfaceType => exact absurd (hkind ▸ rfl) hclass

theorem eq_error_of_map {α β : Type} {outcome : Except Failure α} {f : α → β} {failure : Failure}
    (h : outcome.map f = .error failure) : outcome = .error failure := by
  cases outcome with
  | ok value => exact nomatch h
  | error other => exact congrArg _ (Except.error.inj h)

/-- No symbol fails for a reason that the run cannot go on with. -/
theorem isRecoverable_buildSymbol (hindexed : context.Indexed) {failure : Failure}
    (herror : (context.buildSymbol state ref).1 = .error failure) :
    failure.isRecoverable = true := by
  by_cases hclass : (context.symbol ref).kind.isClassLike = true
  · rw [buildSymbol_of_isClassLike hclass] at herror
    split at herror
    · exact nomatch herror
    · exact (context.builds hindexed state ref).isRecoverable (eq_error_of_map herror)
  · rw [buildSymbol] at herror
    cases hkind : (context.symbol ref).kind with
    | global =>
      rw [hkind] at herror
      exact (runs_global hindexed _).failed _ (eq_error_of_map herror)
    | function =>
      rw [hkind] at herror
      exact (runs_function hindexed _).failed _ (eq_error_of_map herror)
    | classType => exact absurd (hkind ▸ rfl) hclass
    | interfaceType => exact absurd (hkind ▸ rfl) hclass

/-- What a listed symbol comes to does not depend on what is known. -/
theorem kept_buildSymbol : kept (context.buildSymbol state ref).1 =
    context.values (context.symbol ref) := by
  by_cases hclass : (context.symbol ref).kind.isClassLike = true
  · rw [buildSymbol_of_isClassLike hclass, values_of_isClassLike hclass]
    split
    · rfl
    · exact kept_map_nil _
  · rw [buildSymbol]
    cases hkind : (context.symbol ref).kind with
    | global => exact (values_of_shown (shown_aside_global hkind)).symm
    | function => exact (values_of_shown (shown_aside_function hkind)).symm
    | classType => exact absurd (hkind ▸ rfl) hclass
    | interfaceType => exact absurd (hkind ▸ rfl) hclass

/-- **The listed symbols** never fail, whatever is known before them. -/
theorem exists_passes_listed (hindexed : context.Indexed) (state : State context.table.size)
    (refs : List context.Ref) :
    ∃ last, context.buildListed state refs =
        (.ok (refs.flatMap fun ref => context.values (context.symbol ref)), last) ∧
      context.Passes state (context.listedRequests state refs) last := by
  induction refs generalizing state with
  | nil => exact ⟨state, rfl, .refl state⟩
  | cons ref refs ih =>
    have hrecoverable : ∀ failure, (context.buildSymbol state ref).1 = .error failure →
        failure.isRecoverable = true := fun _ => isRecoverable_buildSymbol hindexed
    obtain ⟨report, habsorb⟩ := exists_absorb (context.symbol ref).name hrecoverable
    obtain ⟨last, hlisted, hpasses⟩ := ih ((context.buildSymbol state ref).2.tell report)
    have hkept : kept (context.buildSymbol state ref).1 = context.values (context.symbol ref) :=
      kept_buildSymbol
    refine ⟨last, ?_, ?_⟩
    · rw [List.flatMap_cons, ← hkept, buildListed]
      simp only [habsorb, hlisted]
      rfl
    · rw [listedRequests]
      simp only [habsorb]
      split
      · next hown =>
        refine .request (.aside hpasses ?_ ?_)
        · rw [buildSymbol_of_isClassLike hown.1, if_neg hown.2]
          rfl
        · rw [buildSymbol_of_isClassLike hown.1, if_neg hown.2]
          rfl
      · next hother =>
        obtain ⟨hmemo, hbuilt⟩ := buildSymbol_aside hother
        exact .aside hpasses hmemo hbuilt

theorem waitingRequests_of_nil (hwaiting : context.waiting state = []) :
    context.waitingRequests state = [] := by
  rw [waitingRequests]
  split
  · rfl
  · next heq => exact nomatch hwaiting.symm.trans heq

theorem waitingRequests_of_cons {pending : List context.Ref}
    (hwaiting : context.waiting state = ref :: pending) :
    context.waitingRequests state = context.request { state with pending } ref ::
      context.waitingRequests ((context.build { state with pending } ref).2.tell
        (absorb (context.symbol ref).name (context.build { state with pending } ref).1).2) := by
  rw [waitingRequests]
  split
  · next heq => exact nomatch hwaiting.symm.trans heq
  · next heq =>
    obtain ⟨rfl, rfl⟩ := List.cons.inj (hwaiting.symm.trans heq)
    rfl

/-- **The symbols that were met** never fail, whatever is known before them. -/
theorem exists_passes_waiting (hindexed : context.Indexed) (state : State context.table.size) :
    ∃ last, context.drain state = (.ok (), last) ∧
      context.Passes state (context.waitingRequests state) last := by
  fun_induction drain context state with
  | case1 state hwaiting =>
    refine ⟨_, rfl, ?_⟩
    rw [waitingRequests_of_nil hwaiting]
    exact .aside (.refl _) rfl rfl
  | case2 state ref pending hwaiting result absorbed failure herror =>
    exact absurd herror (absorb_build_ne_error hindexed { state with pending } ref failure)
  | case3 state ref pending hwaiting result absorbed value hvalue ih =>
    obtain ⟨last, hdrain, hpasses⟩ := ih
    refine ⟨last, hdrain, ?_⟩
    rw [waitingRequests_of_cons hwaiting]
    exact .aside (.request (.aside hpasses rfl rfl)) rfl rfl

/-- **The lifecycle of types.** However types are asked for before a module is assembled, the
module comes about, and nothing is half done after any request: what is known of a type stays as
it is, requests for the same name are answered alike, and the types of the module are those that
were built, each once and after its parent. -/
theorem requests_settle (sources : List String) (symbols : List Symbol) (config : Config)
    (count : Option ℕ) (given : List (Fin (SymbolTable.ofSymbols sources symbols).size)) :
    let context : Context := ⟨.ofSymbols sources symbols, config⟩
    ∃ assembled last,
      context.assembleFrom (context.afterGiven given) (context.listed count) = .ok assembled ∧
      types assembled.decls = last.built.toList ∧
      context.Lifecycle (context.requests given (context.listed count)) last := by
  intro context
  have hindexed : context.Indexed := indexed_ofSymbols sources symbols config
  obtain ⟨state, hlisted, hturns⟩ :=
    exists_passes_listed hindexed (context.afterGiven given) (context.listed count)
  obtain ⟨last, hdrain, hmet⟩ := exists_passes_waiting hindexed state
  have hpasses :
      context.Passes (.initial _) (context.requests given (context.listed count)) last := by
    rw [requests, hlisted]
    exact ((passes_givenRequests _ given).append hturns).append hmet
  obtain ⟨assembled, hassemble, htypes⟩ : ∃ assembled,
      context.assembleFrom (context.afterGiven given) (context.listed count) = .ok assembled ∧
        types assembled.decls = last.built.toList := by
    rw [assembleFrom, hlisted]
    simp only [hdrain]
    refine ⟨_, rfl, types_append fun decl hdecl type => ?_⟩
    obtain ⟨ref, -, hdecl⟩ := List.mem_flatMap.mp hdecl
    rintro rfl
    exact key?_ne_type hdecl _ rfl
  exact ⟨assembled, last, hassemble, htypes, hpasses.lifecycle hindexed (.initial _)⟩

end Context

end Bindery.Assembly
