import Bindery.Proofs.Bindings.Ending

/-!
# The log tells of every diagnostic

A run writes a log while it goes on, and hands over its diagnostics at the end. A report is
**logged** (`Bindery.Report.Logged`) if the warnings in its log are the messages of its diagnostics,
as many and in the same order, whatever other records stand between them. What is reported is only
ever added to, and what is added is logged by itself: a diagnostic comes with its warning at once,
even if it comes up while a parent is built for the sake of another type.

So a build stays logged with each request (`Bindery.Assembly.Context.logged_build`) and each turn of
a symbol, and so do declarations that are put in order (`Bindery.logged_emit`) and whole runs
(`Bindery.Bindings.runs_logged`).
-/

namespace Bindery

/-! ### Reports -/

/-- The texts of the warnings in a log, in order. -/
def Log.warnings (log : Log) : List String := (log.filter (·.level = .warn)).map (·.text)

namespace Report

/-- **A report is logged**: the warnings in its log are the messages of its diagnostics. -/
def Logged (report : Report) : Prop :=
  Log.warnings report.log = report.diagnostics.map (·.message)

theorem logged_empty : (∅ : Report).Logged := rfl

theorem logged_debug (text : String) : (debug text).Logged := rfl

theorem logged_info (text : String) : (info text).Logged := rfl

theorem logged_ofDiagnostic (diagnostic : Diagnostic) : (ofDiagnostic diagnostic).Logged := rfl

theorem logged_skipped (message : String) : (skipped message).Logged := rfl

theorem Logged.append {first second : Report} (h : first.Logged) (h' : second.Logged) :
    (first ++ second).Logged := by
  change Log.warnings (first.log ++ second.log) =
    (first.diagnostics ++ second.diagnostics).map (·.message)
  rw [Log.warnings, List.filter_append, List.map_append, List.map_append]
  exact congrArg₂ _ h h'

theorem logged_concat {reports : List Report} (h : ∀ report ∈ reports, report.Logged) :
    (concat reports).Logged := by
  induction reports with
  | nil => exact logged_empty
  | cons report reports ih =>
    obtain ⟨hreport, hreports⟩ := List.forall_mem_cons.mp h
    exact hreport.append (ih hreports)

end Report

namespace Assembly

variable {n : ℕ} {α β : Type}

/-! ### Attempts -/

namespace Attempt

/-- What an attempt reports is logged. -/
def Logged (attempt : Attempt n α) : Prop := attempt.notes.report.Logged

theorem logged_done (value : α) : (pure value : Attempt n α).Logged := rfl

theorem logged_fail (failure : Failure) : (Attempt.fail failure : Attempt n α).Logged := rfl

namespace Logged

/-- One attempt after the other. -/
theorem bind {attempt : Attempt n α} {next : α → Attempt n β} (h : attempt.Logged)
    (hnext : ∀ value, (next value).Logged) : (attempt >>= next).Logged := by
  change (attempt.andThen next).Logged
  rw [andThen]
  cases attempt.outcome with
  | error failure => exact h
  | ok value => exact h.append (hnext value)

theorem recover {attempt : Attempt n α} (h : attempt.Logged) (what : String) :
    (attempt.recover what).Logged := by
  rw [Attempt.recover]
  split
  · exact h
  · exact h.append (Report.logged_skipped _)
  · exact h

theorem foldlM {γ : Type} {step : α → γ → Attempt n α}
    (hstep : ∀ value item, (step value item).Logged) (items : List γ) (value : α) :
    (items.foldlM step value).Logged := by
  induction items generalizing value with
  | nil => exact logged_done value
  | cons item items ih =>
    rw [List.foldlM_cons]
    exact (hstep value item).bind fun next => ih next

end Logged

end Attempt

open Attempt (logged_done logged_fail)

theorem logged_overloads {kind owner : String} {build : ℕ → Symbol.Signature → Attempt n α}
    (hbuild : ∀ number signature, (build number signature).Logged) (number : ℕ)
    (signatures : List Symbol.Signature) :
    (overloads kind owner build number signatures).Logged := by
  induction signatures generalizing number with
  | nil => exact logged_done []
  | cons signature signatures ih =>
    exact ((hbuild number signature).recover _).bind fun _ =>
      (ih (number + 1)).bind fun _ => logged_done _

theorem logged_absorb (name : String) (outcome : Except Failure α) :
    (absorb name outcome).2.Logged := by
  cases outcome with
  | ok value => exact Report.logged_empty
  | error failure =>
    rw [absorb]
    split
    · exact Report.logged_skipped _
    · exact Report.logged_empty

namespace Context

variable {context : Context}

/-- Something is told that is logged by itself. -/
theorem logged_tell {report : Report} (h : report.Logged) :
    (Attempt.tell report : context.Attempt Unit).Logged := h

theorem logged_resolve (type : ForeignType) : (context.resolve type).Logged := by
  rw [resolve]
  split <;> rfl

theorem logged_resolveDeclared (type? : Option ForeignType) :
    (context.resolveDeclared type?).Logged := by
  cases type? with
  | none => exact logged_fail _
  | some type => exact logged_resolve type

theorem logged_params (params : List Symbol.Param) : (context.params params).Logged := by
  induction params with
  | nil => exact logged_done []
  | cons param params ih =>
    exact (logged_resolve param.type).bind fun _ => ih.bind fun _ => logged_done _

theorem logged_signature (name : String) (owner : Option Ident) (overload : ℕ)
    (signature : Symbol.Signature) : (context.signature name owner overload signature).Logged :=
  (logged_params signature.params).bind fun _ =>
    (logged_resolve signature.returns).bind fun _ => logged_done _

theorem logged_global (symbol : Symbol) : (context.global symbol).Logged := by
  rw [Context.global]
  split
  · exact logged_fail _
  · exact (logged_resolveDeclared symbol.type).bind fun _ =>
      (logged_tell (Report.logged_debug _)).bind fun _ => logged_done _

theorem logged_function (symbol : Symbol) : (context.function symbol).Logged := by
  rw [Context.function]
  split
  · exact logged_fail _
  · exact (logged_overloads (logged_signature _ _) 0 _).bind fun _ =>
      (logged_tell (Report.logged_debug _)).bind fun _ => logged_done _

/-! ### Members -/

section Members

variable (owner : Symbol) (member : Symbol.Member)

theorem logged_constructors : (context.constructors owner member).Logged := by
  rw [constructors]
  split
  · exact (logged_tell (Report.logged_debug _)).bind fun _ => logged_done _
  · exact logged_overloads (fun _ signature => (logged_params signature.params).bind fun _ =>
      logged_done _) 0 _

theorem logged_field (declared : String → Bool) : (context.field owner declared member).Logged := by
  rw [field]
  split
  · exact (logged_tell (Report.logged_skipped _)).bind fun _ => logged_done _
  · split
    · exact logged_done _
    · exact ((logged_resolveDeclared member.type).bind fun _ => logged_done _).recover _

theorem logged_methods : (context.methods owner member).Logged := by
  rw [methods]
  split
  · exact (logged_tell (Report.logged_skipped _)).bind fun _ => logged_done _
  · exact logged_overloads (logged_signature _ _) 0 _

theorem logged_addMember (parent : Option Decl.TypeDecl) (built : Members) :
    (context.addMember owner parent built member).Logged := by
  rw [addMember]
  split
  · exact (logged_constructors owner member).bind fun _ => logged_done _
  · exact (logged_field owner member _).bind fun _ => logged_done _
  · exact (logged_methods owner member).bind fun _ => logged_done _
  · exact (logged_tell (Report.logged_skipped _)).bind fun _ => logged_done _

end Members

theorem logged_typeOn (symbol : Symbol) (parent : Option Decl.TypeDecl) :
    (context.typeOn symbol parent).Logged :=
  (Attempt.Logged.foldlM (fun built member => logged_addMember symbol member parent built) _ _).bind
    fun _ => logged_done _

/-! ### Requests -/

theorem logged_conclude {name : String} {result : Except Failure Decl.TypeDecl × State n}
    (h : result.2.report.Logged) : (State.conclude name result).2.report.Logged := by
  obtain ⟨outcome, state⟩ := result
  cases outcome with
  | ok type => exact h.append (Report.logged_debug _)
  | error failure => exact h

theorem logged_buildOn {symbol : Symbol}
    {parent : Except Failure (Option Decl.TypeDecl) × State context.table.size}
    (h : parent.2.report.Logged) : (context.buildOn symbol parent).2.report.Logged := by
  obtain ⟨outcome, state⟩ := parent
  cases outcome with
  | ok parent => exact h.append (logged_typeOn symbol parent)
  | error failure => exact h

/-- **A request keeps the report logged.** -/
theorem logged_build {state : State context.table.size} (ref : context.Ref)
    (h : state.report.Logged) : (context.build state ref).2.report.Logged := by
  fun_induction build context state ref with
  | case1 => exact h
  | case2 => exact logged_conclude h
  | case3 state ref symbol hmemo state' hden state'' parent ih =>
    refine logged_conclude (logged_buildOn ?_)
    simp only [parent]
    split
    · exact h
    · split
      · exact ih _ h
      · exact h

/-- A class or an interface that is listed asks for its type, unless it is declared already. -/
theorem logged_classLike {state : State context.table.size} (ref : context.Ref) (again : Bool)
    (message : String) (h : state.report.Logged) :
    (if again = true then ((.ok [] : Except Failure (List Decl)), state.tell (.skipped message))
      else ((context.build state ref).1.map fun _ => [],
        (context.build state ref).2)).2.report.Logged := by
  split
  · exact h.append (Report.logged_skipped _)
  · exact logged_build ref h

theorem logged_buildSymbol {state : State context.table.size} (ref : context.Ref)
    (h : state.report.Logged) : (context.buildSymbol state ref).2.report.Logged := by
  rw [buildSymbol]
  split
  · exact h.append (logged_global _)
  · exact h.append (logged_function _)
  · exact logged_classLike ref _ _ h
  · exact logged_classLike ref _ _ h

theorem logged_buildListed {state : State context.table.size} (refs : List context.Ref)
    (h : state.report.Logged) : (context.buildListed state refs).2.report.Logged := by
  induction refs generalizing state with
  | nil => exact h
  | cons ref refs ih =>
    have hturn := (logged_buildSymbol ref h).append
      (logged_absorb (context.symbol ref).name (context.buildSymbol state ref).1)
    simp only [buildListed]
    split
    · exact hturn
    · exact ih hturn

theorem logged_drain {state : State context.table.size} (h : state.report.Logged) :
    (context.drain state).2.report.Logged := by
  have hround : ∀ (state : State context.table.size) (ref : context.Ref), state.report.Logged →
      ((context.build state ref).2.tell
        (absorb (context.symbol ref).name (context.build state ref).1).2).report.Logged :=
    fun _ ref h => (logged_build ref h).append (logged_absorb _ _)
  fun_induction drain context state with
  | case1 => exact h
  | case2 state ref pending => exact hround { state with pending } ref h
  | case3 state ref pending hwaiting result absorbed value hvalue ih =>
    exact ih (hround { state with pending } ref h)

/-- Requests from outside keep the report logged. -/
theorem logged_afterGiven (given : List context.Ref) :
    (context.afterGiven given).report.Logged := by
  have hgiven : ∀ state : State context.table.size, state.report.Logged →
      (given.foldl (fun state ref => (context.build state ref).2) state).report.Logged := by
    induction given with
    | nil => exact fun _ h => h
    | cons ref given ih => exact fun state h => ih _ (logged_build ref h)
  exact hgiven _ Report.logged_empty

/-- **A module is logged** on top of what is. -/
theorem exists_logged_assembleFrom (hindexed : context.Indexed)
    {state : State context.table.size} (h : state.report.Logged) (listed : List context.Ref) :
    ∃ assembled, context.assembleFrom state listed = .ok assembled ∧ assembled.report.Logged := by
  obtain ⟨next, hlisted, -⟩ := exists_passes_listed hindexed state listed
  obtain ⟨last, hdrain, -⟩ := exists_passes_waiting hindexed next
  have hnext := logged_buildListed listed h
  rw [hlisted] at hnext
  have hlast := logged_drain hnext
  rw [hdrain] at hlast
  rw [assembleFrom, hlisted]
  simp only [hdrain]
  exact ⟨_, rfl, hlast.append (Report.logged_debug _)⟩

end Context

end Assembly

/-! ### Declarations in order -/

theorem Emission.logged_sift (seen : Std.TreeSet Decl.Key) (decls : List Decl) :
    (sift seen decls).2.Logged := by
  induction decls generalizing seen with
  | nil => exact Report.logged_empty
  | cons decl decls ih =>
    rw [sift]
    split
    · exact (Report.logged_debug _).append (ih seen)
    · split
      · exact (Report.logged_skipped _).append (ih seen)
      · exact ih _

theorem Emission.logged_place (declared : Std.TreeMap Decl.Key Decl) (keys : List Decl.Key) :
    (place declared keys).2.Logged := by
  rw [place.eq_def]
  split
  · split
    · exact Report.logged_empty
    · exact Report.logged_debug _
  · exact Report.logged_ofDiagnostic _

/-- **Declarations are put in order**, and what is left out of them is logged. -/
theorem logged_emit (decls : List Decl) : (emit decls).report.Logged := by
  refine (Emission.logged_sift ∅ decls).append (Report.logged_concat fun report hmem => ?_)
  obtain ⟨placed, hplaced, rfl⟩ := List.mem_map.mp hmem
  obtain ⟨keys, -, rfl⟩ := List.mem_map.mp hplaced
  exact Emission.logged_place _ keys

/-! ### Runs -/

namespace Bindings

open Assembly (Context)

/-- **Every run is logged**: the warnings in its log are the messages of its diagnostics, one by
one. This goes for the generation of bindings, for declarations that are put in order, and for a
module that is assembled after any requests, as well as for these requests by themselves. -/
theorem runs_logged (sources : List String) (symbols : List Symbol) (config : Config)
    (count : Option ℕ) :
    let table := SymbolTable.ofSymbols sources symbols
    let context : Context := ⟨table, config⟩
    (∃ bindings, generate table config count = .ok bindings ∧ bindings.report.Logged) ∧
    (∀ decls, (emit decls).report.Logged) ∧
    ∀ given, (context.afterGiven given).report.Logged ∧
      ∃ assembled, context.assembleFrom (context.afterGiven given) (context.listed count) =
        .ok assembled ∧ assembled.report.Logged := by
  intro table context
  have hindexed : context.Indexed := Context.indexed_ofSymbols sources symbols config
  refine ⟨?_, logged_emit, fun given => ⟨Context.logged_afterGiven given, ?_⟩⟩
  · have hinitial : (Assembly.State.initial table.size).report.Logged := Report.logged_empty
    obtain ⟨assembled, hassemble, hlogged⟩ :=
      Context.exists_logged_assembleFrom hindexed hinitial (context.listed count)
    have hreport := hlogged.append (logged_emit assembled.decls)
    rw [generate, Context.assemble, hassemble]
    exact ⟨_, rfl, hreport.append (Report.logged_info _)⟩
  · exact Context.exists_logged_assembleFrom hindexed (Context.logged_afterGiven given) _

end Bindings

end Bindery
