import Bindery.Assembly.Body
import Bindery.Counting

/-!
# Building each type once

Types are built one at a time and kept in a **memo** under their foreign names. A type
that is asked for again is the one that was built, and one that could not be built is
refused from then on. While a type waits for its parent it is **under construction**; to
ask for it then is to go round in a circle of inheritance.

`Bindery.Assembly.State` is what the build knows so far, and
`Bindery.Assembly.Context.build` is one request for a type. It calls itself for the
parent, after the type is entered into the memo, so it ends: each call uses up a name of
the table that the memo does not hold yet (`Bindery.Assembly.Context.unknown`). What a
request adds to the memo is never taken out again
(`Bindery.Assembly.Context.mem_memo_build`).
-/

namespace Bindery.Assembly

open Decl (TypeDecl)

/-! ### The state of a build -/

/-- What is known of a type. -/
inductive Progress where
  /-- It waits for its parent. -/
  | underConstruction
  | built (type : TypeDecl)
  | unbuildable
  deriving DecidableEq, Repr

/-- What a request gets for a type of this name. -/
def Progress.answer (name : String) : Progress → Except Failure TypeDecl
  | built type => .ok type
  | unbuildable => .error (.refused name .unbuildable)
  | underConstruction => .error (.refused name .underConstruction)

/-- **What a build knows so far**. Symbols are numbers below `n`. -/
structure State (n : Nat) where
  /-- What is known of the type of each name. -/
  memo : Std.TreeMap String Progress
  /-- The symbol that each type was first asked for by. -/
  declaredBy : Std.TreeMap String (Fin n)
  /-- The types that were built, in order. -/
  built : Array TypeDecl
  /-- The classes and interfaces that were met, in order. -/
  pending : List (Fin n)
  /-- What is reported so far. -/
  report : Report

namespace State

variable {n : Nat}

/-- The state before any request. -/
def initial (n : Nat) : State n := ⟨∅, ∅, #[], [], ∅⟩

/-- The state with something known of a type. -/
def mark (state : State n) (name : String) (progress : Progress) : State n :=
  { state with memo := state.memo.insert name progress }

/-- The state after a type was asked for by a symbol. -/
def declare (state : State n) (name : String) (ref : Fin n) : State n :=
  { state with declaredBy := state.declaredBy.insert name ref }

/-- The state with more to report. -/
def tell (state : State n) (report : Report) : State n :=
  { state with report := state.report ++ report }

/-- The state with the notes of an attempt. -/
def take (state : State n) (notes : Notes n) : State n :=
  { state.tell notes.report with pending := state.pending ++ notes.met }

/-- The outcome for a type of this name enters the state. -/
def conclude (name : String) :
    Except Failure TypeDecl × State n → Except Failure TypeDecl × State n
  | (.ok type, state) =>
    let state := state.mark name (.built type)
    (.ok type, { state.tell (.debug ("built type " ++ name)) with built := state.built.push type })
  | (.error failure, state) => (.error failure, state.mark name .unbuildable)

end State

/-! ### One request -/

namespace Context

variable {context : Context}

/-- A type on top of its parent, if that was built. -/
def buildOn (context : Context) (symbol : Symbol) :
    Except Failure (Option TypeDecl) × State context.table.size →
      Except Failure TypeDecl × State context.table.size
  | (.ok parent, state) =>
    let attempt := context.typeOn symbol parent
    (attempt.outcome, state.take attempt.notes)
  | (.error failure, state) => (.error failure, state)

/-- Whether a name of the table is not in the memo, as a number. -/
def isUnknown (context : Context) (memo : Std.TreeMap String Progress) (ref : context.Ref) :
    Nat :=
  if (context.symbol ref).name ∈ memo then 0 else 1

/-- **How many symbols have names that are not in the memo**. -/
def unknown (context : Context) (memo : Std.TreeMap String Progress) : Nat :=
  total (List.ofFn (context.isUnknown memo))

/-- A memo with more names knows of more symbols. -/
theorem unknown_lt {memo memo' : Std.TreeMap String Progress} {ref : context.Ref}
    (hmono : ∀ name, name ∈ memo → name ∈ memo') (hnot : (context.symbol ref).name ∉ memo)
    (hmem : (context.symbol ref).name ∈ memo') :
    context.unknown memo' < context.unknown memo := by
  refine total_ofFn_add_le (i := ref) (k := 1) (fun j => ?_) ?_
  · simp only [isUnknown]
    by_cases h : (context.symbol j).name ∈ memo
    · exact Nat.le_of_eq (by rw [if_pos h, if_pos (hmono _ h)])
    · rw [if_neg h]
      split
      · exact Nat.zero_le 1
      · exact Nat.le_refl 1
  · simp only [isUnknown]
    exact Nat.le_of_eq (by rw [if_neg hnot, if_pos hmem])

theorem unknown_insert_lt {memo : Std.TreeMap String Progress} {ref : context.Ref}
    {progress : Progress} (hnot : memo[(context.symbol ref).name]? = none) :
    context.unknown (memo.insert (context.symbol ref).name progress) < context.unknown memo :=
  unknown_lt (fun _ h => Std.TreeMap.mem_insert.2 (Or.inr h))
    (fun h => by rw [Std.TreeMap.mem_iff_isSome_getElem?, hnot] at h; cases h)
    Std.TreeMap.mem_insert_self

/-- **One request for the type that a symbol declares**. -/
def build (context : Context) (state : State context.table.size) (ref : context.Ref) :
    Except Failure TypeDecl × State context.table.size :=
  let symbol := context.symbol ref
  match _hmemo : state.memo[symbol.name]? with
  | some progress => (progress.answer symbol.name, state)
  | none =>
    let state' := state.declare symbol.name ref
    if context.denies symbol then
      State.conclude symbol.name (.error (.refused symbol.name .denied), state')
    else
      -- before the parent is asked for, as a circle of parents comes back to this name
      let state' := state'.mark symbol.name .underConstruction
      let parent : Except Failure (Option TypeDecl) × State context.table.size :=
        match symbol.parent with
        | none => (.ok none, state')
        | some type =>
          match context.table.classify type with
          | .classLike parent =>
            let (outcome, state') := build context state' parent
            (outcome.map some, state')
          | _ => (.error (.refused symbol.name (.unfitParent type.text)), state')
      State.conclude symbol.name (context.buildOn symbol parent)
termination_by context.unknown state.memo
decreasing_by exact unknown_insert_lt _hmemo

/-! ### The memo only grows -/

theorem mem_memo_conclude {n : Nat} {name name' : String}
    {result : Except Failure TypeDecl × State n} :
    name' ∈ (State.conclude name result).2.memo ↔ name = name' ∨ name' ∈ result.2.memo := by
  obtain ⟨outcome, state⟩ := result
  cases outcome <;> simp [State.conclude, State.mark, State.tell]

theorem memo_buildOn (symbol : Symbol)
    (parent : Except Failure (Option TypeDecl) × State context.table.size) :
    (context.buildOn symbol parent).2.memo = parent.2.memo := by
  obtain ⟨outcome, state⟩ := parent
  cases outcome <;> rfl

/-- A type that something is known of stays known. -/
theorem mem_memo_build {state : State context.table.size} {ref : context.Ref} {name : String}
    (h : name ∈ state.memo) : name ∈ (context.build state ref).2.memo := by
  fun_induction build context state ref with
  | case1 => exact h
  | case2 => exact mem_memo_conclude.2 (Or.inr h)
  | case3 state ref symbol hmemo state' hden state'' parent ih =>
    refine mem_memo_conclude.2 (Or.inr ?_)
    rw [memo_buildOn]
    have hmem : name ∈ state''.memo := Std.TreeMap.mem_insert.2 (Or.inr h)
    simp only [parent]
    split
    · exact hmem
    · split
      · exact ih _ hmem
      · exact hmem

/-- Something is known of a type that was asked for. -/
theorem name_mem_memo_build (state : State context.table.size) (ref : context.Ref) :
    (context.symbol ref).name ∈ (context.build state ref).2.memo := by
  rw [build]
  split
  · next progress hmemo =>
    rw [Std.TreeMap.mem_iff_isSome_getElem?, hmemo]
    rfl
  · split <;> exact mem_memo_conclude.2 (Or.inl rfl)

end Context

end Bindery.Assembly
