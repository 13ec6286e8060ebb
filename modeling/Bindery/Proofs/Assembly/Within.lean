import Bindery.Proofs.Assembly.Demand
import Bindery.Proofs.Assembly.Lifecycle

/-!
# Building within bounds

A request asks for the parent of the type, and that is the only way in which requests are nested. To
**build within a depth** (`Bindery.Assembly.Context.buildWithin`) is to do the same with a bound on
the nesting, and to give up where it is reached. It never is if the depth is greater than the number
of symbols of the table (`Bindery.Assembly.Context.buildWithin_eq`): each level of the nesting takes
another name that was not known before.

The symbols that were met are taken off a queue one by one, which grows in the meantime. Here it is
the number of **rounds** that is bounded (`Bindery.Assembly.Context.drainWithin`), and it is enough
that there are more of them than the demand of the state
(`Bindery.Assembly.Context.drainWithin_eq`), which drops by one in each.
-/

namespace Bindery

/-- A total of terms that are at most one is at most the number of its terms. -/
theorem total_ofFn_le_length {n : ℕ} {f : Fin n → ℕ} (hle : ∀ i, f i ≤ 1) :
    total (List.ofFn f) ≤ n := by
  induction n with
  | zero => exact Nat.le_refl 0
  | succ n ih =>
    have hfirst := hle 0
    have hrest := ih fun i => hle i.succ
    rw [List.ofFn_succ, total_cons]
    omega

namespace Assembly.Context

open Decl (TypeDecl)

variable {context : Context} {state : State context.table.size} {ref : context.Ref}
  {refs : List context.Ref} {depth rounds : ℕ}

/-! ### Nested requests -/

/-- **One request within a depth**, or nothing if it is nested too deep. -/
def buildWithin (context : Context) : ℕ → State context.table.size → context.Ref →
    Option (Except Failure TypeDecl × State context.table.size)
  | 0, _, _ => none
  | depth + 1, state, ref =>
    let symbol := context.symbol ref
    match state.memo[symbol.name]? with
    | some progress => some (progress.answer symbol.name, state)
    | none =>
      let state' := state.declare symbol.name ref
      if context.denies symbol then
        some (State.conclude symbol.name (.error (.refused symbol.name .denied), state'))
      else
        let state' := state'.mark symbol.name .underConstruction
        let parent : Option (Except Failure (Option TypeDecl) × State context.table.size) :=
          match symbol.parent with
          | none => some (.ok none, state')
          | some type =>
            match context.table.classify type with
            | .classLike parent => (context.buildWithin depth state' parent).map
                fun result => (result.1.map some, result.2)
            | _ => some (.error (.refused symbol.name (.unfitParent type.text)), state')
        parent.map fun parent => State.conclude symbol.name (context.buildOn symbol parent)

/-- **A request is nested no deeper** than there are names that are not known. -/
theorem buildWithin_of_unknown_lt (h : context.unknown state.memo < depth) :
    context.buildWithin depth state ref = some (context.build state ref) := by
  induction depth generalizing state ref with
  | zero => exact absurd h (Nat.not_lt_zero _)
  | succ depth ih =>
    rw [buildWithin]
    cases hmemo : state.memo[(context.symbol ref).name]? with
    | some progress => exact congrArg some (build_of_known hmemo).symm
    | none =>
      -- the parent is asked for when one more name is known
      have hparent (parent : context.Ref) :
          context.buildWithin depth (state.opening (context.symbol ref).name ref) parent =
            some (context.build (state.opening (context.symbol ref).name ref) parent) :=
        ih (Nat.lt_of_lt_of_le (unknown_insert_lt hmemo) (Nat.le_of_lt_succ h))
      cases hdenied : context.denies (context.symbol ref) with
      | true => exact congrArg some (build_of_denied hmemo hdenied).symm
      | false =>
        rw [build_of_allowed hmemo hdenied]
        cases hextends : (context.symbol ref).parent with
        | none => rfl
        | some type =>
          cases hclass : context.table.classify type with
          | classLike parent =>
            simp only [hclass]
            change Option.map _ (Option.map _ (context.buildWithin depth
              (state.opening (context.symbol ref).name ref) parent)) = _
            rw [hparent]
            rfl
          | _ =>
            simp only [hclass]
            rfl

theorem unknown_le_size (memo : Std.TreeMap String Progress) :
    context.unknown memo ≤ context.table.size := by
  have hle : ∀ ref, context.isUnknown memo ref ≤ 1 := by
    intro ref
    rw [isUnknown]
    split
    · exact Nat.zero_le 1
    · exact Nat.le_refl 1
  exact total_ofFn_le_length hle

/-- **A request is nested no deeper** than there are symbols. -/
theorem buildWithin_eq (state : State context.table.size) (ref : context.Ref)
    (h : context.table.size < depth) :
    context.buildWithin depth state ref = some (context.build state ref) :=
  buildWithin_of_unknown_lt (Nat.lt_of_le_of_lt (unknown_le_size state.memo) h)

/-! ### Listed symbols -/

/-- What a listed symbol becomes within a depth: only a class or an interface makes a request. -/
def buildSymbolWithin (context : Context) (depth : ℕ) (state : State context.table.size)
    (ref : context.Ref) : Option (Except Failure (List Decl) × State context.table.size) :=
  if (context.symbol ref).kind.isClassLike ∧
      ¬ state.declaredBy[(context.symbol ref).name]?.any (· ≠ ref) then
    (context.buildWithin depth state ref).map fun result =>
      (result.1.map fun _ => [], result.2)
  else some (context.buildSymbol state ref)

theorem buildSymbolWithin_eq (state : State context.table.size) (ref : context.Ref)
    (h : context.table.size < depth) :
    context.buildSymbolWithin depth state ref = some (context.buildSymbol state ref) := by
  rw [buildSymbolWithin]
  split
  · next hown =>
    rw [buildWithin_eq state ref h, buildSymbol_of_isClassLike hown.1, if_neg hown.2]
    rfl
  · rfl

/-- **The listed symbols within a depth**, one after the other. -/
def buildListedWithin (context : Context) (depth : ℕ) :
    State context.table.size → List context.Ref →
      Option (Except Failure (List Decl) × State context.table.size)
  | state, [] => some (.ok [], state)
  | state, ref :: refs =>
    (context.buildSymbolWithin depth state ref).bind fun result =>
      let absorbed := absorb (context.symbol ref).name result.1
      let state := result.2.tell absorbed.2
      match absorbed.1 with
      | .error failure => some (.error failure, state)
      | .ok decls => (context.buildListedWithin depth state refs).map fun result =>
          (result.1.map fun rest => decls.getD [] ++ rest, result.2)

theorem buildListedWithin_eq (state : State context.table.size) (refs : List context.Ref)
    (h : context.table.size < depth) :
    context.buildListedWithin depth state refs = some (context.buildListed state refs) := by
  induction refs generalizing state with
  | nil => rfl
  | cons ref refs ih =>
    rw [buildListedWithin, buildSymbolWithin_eq state ref h, Option.bind_some, buildListed]
    rcases context.buildSymbol state ref with ⟨outcome, next⟩
    rcases habsorb : absorb (context.symbol ref).name outcome with ⟨failure | decls, report⟩
    · simp only [habsorb]
    · simp only [habsorb, ih]
      rfl

/-! ### The queue -/

/-- **The queue within bounds**: one symbol is taken off in each round, and it makes a request if
its name is not known by then. There is nothing if the queue is not empty after so many rounds. -/
def drainWithin (context : Context) (depth : ℕ) :
    ℕ → State context.table.size → Option (Except Failure Unit × State context.table.size)
  | 0, _ => none
  | rounds + 1, state =>
    match state.pending with
    | [] => some (.ok (), state)
    | ref :: pending =>
      if context.isNew state.memo ref then
        (context.buildWithin depth { state with pending } ref).bind fun result =>
          let absorbed := absorb (context.symbol ref).name result.1
          match absorbed.1 with
          | .error failure => some (.error failure, result.2.tell absorbed.2)
          | .ok _ => context.drainWithin depth rounds (result.2.tell absorbed.2)
      else context.drainWithin depth rounds { state with pending }

/-- What is done for the first of the symbols whose names are new. -/
theorem drain_of_waiting_eq_cons {pending : List context.Ref}
    (hwaiting : context.waiting state = ref :: pending) :
    context.drain state =
      let result := context.build { state with pending } ref
      let absorbed := absorb (context.symbol ref).name result.1
      match absorbed.1 with
      | .error failure => (.error failure, result.2.tell absorbed.2)
      | .ok _ => context.drain (result.2.tell absorbed.2) := by
  rw [drain]
  split
  · next heq => exact nomatch hwaiting.symm.trans heq
  · next heq =>
    obtain ⟨rfl, rfl⟩ := List.cons.inj (hwaiting.symm.trans heq)
    rfl

/-- **A symbol whose name is known** is taken off the queue, and that is all. -/
theorem drain_dequeue {pending : List context.Ref} (hpending : state.pending = ref :: pending)
    (hknown : context.isNew state.memo ref = false) :
    context.drain state = context.drain { state with pending } := by
  have hwaiting : context.waiting state = context.waiting { state with pending } := by
    rw [waiting, waiting, hpending]
    exact List.dropWhile_cons_of_pos (by simp [hknown])
  cases hnext : context.waiting { state with pending } with
  | nil =>
    rw [drain_of_waiting_eq_nil hnext, drain_of_waiting_eq_nil (hwaiting.trans hnext)]
  | cons other rest =>
    rw [drain_of_waiting_eq_cons hnext, drain_of_waiting_eq_cons (hwaiting.trans hnext)]

/-- **The queue is empty in time** if there are more rounds than the demand. -/
theorem drainWithin_eq (hindexed : context.Indexed) (state : State context.table.size)
    (hdepth : context.table.size < depth) (hrounds : context.demand state < rounds) :
    context.drainWithin depth rounds state = some (context.drain state) := by
  induction rounds generalizing state with
  | zero => exact absurd hrounds (Nat.not_lt_zero _)
  | succ rounds ih =>
    rw [drainWithin]
    cases hpending : state.pending with
    | nil =>
      have hwaiting : context.waiting state = [] := by rw [waiting, hpending]; rfl
      have hstate : { state with pending := [] } = state := by rw [← hpending]
      rw [drain_of_waiting_eq_nil hwaiting, hstate]
    | cons ref pending =>
      -- the queue is shorter by one, whatever becomes of the symbol
      have hdemand : context.demand { state with pending } < rounds := by
        rw [demand, hpending, List.length_cons] at hrounds
        change pending.length + total (List.ofFn (context.openMentions state.memo)) < rounds
        omega
      cases hnew : context.isNew state.memo ref with
      | false =>
        rw [drain_dequeue hpending hnew]
        simp only [hnew, Bool.false_eq_true, if_false]
        exact ih _ hdemand
      | true =>
        have hwaiting : context.waiting state = ref :: pending := by
          rw [waiting, hpending]
          exact List.dropWhile_cons_of_neg (by simp [hnew])
        have hbuilds := context.builds hindexed { state with pending } ref
        rw [drain_of_waiting_eq_cons hwaiting]
        simp only [hnew, if_true, buildWithin_eq _ ref hdepth, Option.bind_some]
        split
        · rfl
        · exact ih _ (Nat.lt_of_le_of_lt hbuilds.demand_le hdemand)

end Assembly.Context

end Bindery
