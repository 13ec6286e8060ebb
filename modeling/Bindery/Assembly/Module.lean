import Bindery.Assembly.Types

/-!
# Building a whole module

A module is built from the symbols that are **listed**, the first ones of the table.
Each of them is built in turn (`Bindery.Assembly.Context.buildListed`), and then the
classes and interfaces that were met on the way and that nobody has built yet
(`Bindery.Assembly.Context.drain`). What fails is left out and reported
(`Bindery.Assembly.absorb`), so a module as a whole only fails for a reason that has
nothing to do with its symbols.

The result (`Bindery.Assembly.Context.assemble`) is the types in the order in which they
were built, followed by the global variables and the functions.
-/

namespace Bindery.Assembly

open Decl (TypeDecl)

/-! ### What fails is left out -/

/-- The reason to leave out a symbol of this name. Where the failure is about the symbol
itself, its name is not repeated. -/
def skipReason (name : String) (failure : Failure) : String :=
  match failure with
  | .refused refused reason => if refused = name then reason.message else failure.message
  | failure => failure.message

/-- The outcome for a symbol of this name, and what is to be reported of it. What can be
done without is left out. -/
def absorb {α : Type} (name : String) :
    Except Failure α → Except Failure (Option α) × Report
  | .ok value => (.ok (some value), ∅)
  | .error failure =>
    if failure.isRecoverable then
      (.ok none, .skipped ("skipping `" ++ name ++ "`: " ++ skipReason name failure))
    else (.error failure, ∅)

namespace Context

/-! ### Listed symbols -/

/-- **What a listed symbol becomes**, types apart, which go into the state. A type that
is declared a second time is left out. -/
def buildSymbol (context : Context) (state : State context.table.size) (ref : context.Ref) :
    Except Failure (List Decl) × State context.table.size :=
  let symbol := context.symbol ref
  match symbol.kind with
  | .global =>
    let attempt := context.global symbol
    (attempt.outcome.map fun global => [.global global], state.take attempt.notes)
  | .function =>
    let attempt := context.function symbol
    (attempt.outcome.map fun signatures => signatures.map .signature, state.take attempt.notes)
  | .classType | .interfaceType =>
    if state.declaredBy[symbol.name]?.any (· ≠ ref) then
      (.ok [], state.tell (.skipped ("skipping duplicate declaration of `" ++ symbol.name ++ "`")))
    else
      let (outcome, state) := context.build state ref
      (outcome.map fun _ => [], state)

/-- The listed symbols, one after the other. -/
def buildListed (context : Context) :
    State context.table.size → List context.Ref →
      Except Failure (List Decl) × State context.table.size
  | state, [] => (.ok [], state)
  | state, ref :: refs =>
    let (outcome, state) := context.buildSymbol state ref
    let (outcome, report) := absorb (context.symbol ref).name outcome
    let state := state.tell report
    match outcome with
    | .error failure => (.error failure, state)
    | .ok decls =>
      let (outcome, state) := context.buildListed state refs
      (outcome.map fun rest => decls.getD [] ++ rest, state)

/-! ### Symbols that were met -/

/-- Whether nothing is known of the type of a symbol. -/
def isNew (context : Context) (memo : Std.TreeMap String Progress) (ref : context.Ref) : Bool :=
  !memo.contains (context.symbol ref).name

/-- The symbols that were met, from the first one on of whose type nothing is known. -/
def waiting (context : Context) (state : State context.table.size) : List context.Ref :=
  state.pending.dropWhile fun ref => !context.isNew state.memo ref

theorem isNew_of_waiting {context : Context} {state : State context.table.size}
    {ref : context.Ref} {pending : List context.Ref}
    (h : context.waiting state = ref :: pending) : context.isNew state.memo ref = true := by
  have := List.head?_dropWhile_not (fun ref => !context.isNew state.memo ref) state.pending
  rw [waiting] at h
  rw [h] at this
  simpa using this

/-- To build a type of which nothing was known leaves fewer such types. -/
theorem unknown_build_lt {context : Context} {state : State context.table.size}
    {ref : context.Ref} (h : context.isNew state.memo ref = true) :
    context.unknown (context.build state ref).2.memo < context.unknown state.memo :=
  unknown_lt (fun _ h => mem_memo_build h)
    (fun hmem => by rw [isNew, Std.TreeMap.contains_iff_mem.2 hmem] at h; cases h)
    (name_mem_memo_build state ref)

/-- **The types that were met**, in order, and those that are met while they are built. -/
def drain (context : Context) (state : State context.table.size) :
    Except Failure Unit × State context.table.size :=
  match _hwaiting : context.waiting state with
  | [] => (.ok (), { state with pending := [] })
  | ref :: pending =>
    let result := context.build { state with pending } ref
    let absorbed := absorb (context.symbol ref).name result.1
    match absorbed.1 with
    | .error failure => (.error failure, result.2.tell absorbed.2)
    | .ok _ => drain context (result.2.tell absorbed.2)
termination_by context.unknown state.memo
decreasing_by
  have hnew := isNew_of_waiting _hwaiting
  exact unknown_build_lt hnew

/-! ### Modules -/

/-- The listed symbols of a table: so many of the first ones, or all. -/
def listed (context : Context) : Option Nat → List context.Ref
  | some count => (List.finRange context.table.size).take count
  | none => List.finRange context.table.size

end Context

/-- **The declarations of a module**, and what is reported of them. -/
structure Assembled where
  decls : List Decl
  report : Report
  deriving DecidableEq, Repr

namespace Context

/-- The module of the listed symbols, on top of what is known already. -/
def assembleFrom (context : Context) (state : State context.table.size)
    (listed : List context.Ref) : Except Failure Assembled := do
  let (values, state) := context.buildListed state listed
  let values ← values
  let (drained, state) := context.drain state
  drained
  let decls := state.built.toList.map .type ++ values
  let summary := "built " ++ toString decls.length ++ " declarations with " ++
    toString state.report.diagnostics.length ++ " diagnostics"
  return ⟨decls, state.report ++ .debug summary⟩

/-- **The module of the listed symbols**. -/
def assemble (context : Context) (listed : List context.Ref) : Except Failure Assembled :=
  context.assembleFrom (.initial _) listed

end Context

end Bindery.Assembly
