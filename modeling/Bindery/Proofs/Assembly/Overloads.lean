import Bindery.Proofs.Assembly.Constructors
import Bindery.Proofs.Assembly.Mentions

/-!
# Overloads, each by itself

What becomes of an overload depends on its own types alone, and on whether the table has a
rendering for each of them (`Bindery.Assembly.Context.HasRendering`). It does not matter whether the
types that they refer to can be built. Either all types have renderings and there is a signature,
which keeps the number of the overload (`Bindery.Assembly.Context.signature?`), or there is a first
type that has none, a **gap** (`Bindery.Assembly.Context.firstGap?`), and a diagnostic says so.

So the overloads of functions and methods are known beforehand, those that are left
(`Bindery.Assembly.Context.acceptedSignatures`) as well as the diagnostics of the others
(`Bindery.Assembly.overloadGaps`). The same goes for constructors, except that it does not matter
what they return.
-/

namespace Bindery.Assembly

open Decl (Constructor Parameter TypeDecl)

variable {n : ℕ} {α β : Type}

/-! ### What an attempt lacks -/

namespace Attempt

/-- How an attempt fails, if it does. -/
def failure? (attempt : Attempt n α) : Option Failure :=
  match attempt.outcome with
  | .ok _ => none
  | .error failure => some failure

/-- **What an attempt lacks** is a rendering for a type in these words. If it lacks nothing it
succeeds. -/
def Lacks (attempt : Attempt n α) (gap? : Option String) : Prop :=
  attempt.failure? = gap?.map .unrepresentable

namespace Lacks

variable {attempt : Attempt n α} {gap? gap?' : Option String}

theorem done (value : α) : (pure value : Attempt n α).Lacks none := rfl

/-- What comes first is lacking first. -/
theorem bind {next : α → Attempt n β} (h : attempt.Lacks gap?)
    (hnext : ∀ value, (next value).Lacks gap?') : (attempt >>= next).Lacks (gap?.or gap?') := by
  obtain ⟨outcome, notes⟩ := attempt
  cases outcome with
  | error failure =>
    cases gap? with
    | none => cases h
    | some text => exact h
  | ok value =>
    cases gap? with
    | none => exact hnext value
    | some text => cases h

/-- What is made of a value in the end is lacking what the value lacks. -/
theorem map {make : α → β} (h : attempt.Lacks gap?) :
    (attempt >>= fun value => pure (make value)).Lacks gap? := by
  have hdone := h.bind fun value => done (make value)
  rwa [Option.or_none] at hdone

end Lacks

end Attempt

/-! ### Diagnostics of overloads -/

/-- **What is told of something that is left out**, as there is no rendering for a type. -/
def leftOut (what type : String) : Diagnostic :=
  .skipped ("skipping " ++ what ++ ": " ++ (Failure.unrepresentable type).message)

/-- Where a silent attempt lacks something, recovering tells what. -/
theorem Attempt.Lacks.exists_shown_recover {attempt : Attempt n α} {gap? : Option String}
    (h : attempt.Lacks gap?) (hsilent : attempt.Silent) (what : String) :
    ∃ value?, (attempt.recover what).shown = (.ok value?, (gap?.map (leftOut what)).toList) := by
  rw [shown_recover, shown, hsilent.diagnostics_eq]
  rw [Lacks, failure?] at h
  cases houtcome : attempt.outcome with
  | ok value =>
    rw [houtcome] at h
    obtain rfl := Option.map_eq_none_iff.mp h.symm
    exact ⟨some value, rfl⟩
  | error failure =>
    rw [houtcome] at h
    obtain ⟨text, rfl, rfl⟩ := Option.map_eq_some_iff.mp h.symm
    exact ⟨none, rfl⟩

/-- **What is told of an overload that is left out**: what it is, its number, whose it is, and the
type for which there is no rendering. -/
def overloadGap (kind owner : String) (number : ℕ) (type : String) : Diagnostic :=
  ⟨.skipped, "skipping " ++ kind ++ " #" ++ toString number ++ " of `" ++ owner ++
    "`: unrepresentable type `" ++ type ++ "`"⟩

/-- This is what the name of an overload is for. -/
theorem leftOut_overloadName (kind owner : String) (number : ℕ) (type : String) :
    leftOut (overloadName kind number owner) type = overloadGap kind owner number type := by
  have hmessage : (Failure.unrepresentable type).message =
      "unrepresentable type `" ++ type ++ "`" := rfl
  have hjoin : "`: unrepresentable type `" = "`" ++ (": " ++ "unrepresentable type `") := by decide
  rw [leftOut, overloadName, hmessage, Diagnostic.skipped, overloadGap, hjoin]
  simp only [String.append_assoc]

/-- **What is told of overloads**: those in which there is a gap are left out, and each diagnostic
gives the number of its overload. -/
def overloadGaps (kind owner : String) (gap? : Symbol.Signature → Option String) :
    ℕ → List Symbol.Signature → List Diagnostic :=
  ofOverloads fun number signature => (gap? signature).map (overloadGap kind owner number)

/-- **Each overload that is left out is told of**, and nothing else is. -/
theorem exists_shown_overloads {kind owner : String}
    {build : ℕ → Symbol.Signature → Attempt n α} {gap? : Symbol.Signature → Option String}
    (hlacks : ∀ number signature, (build number signature).Lacks (gap? signature))
    (hsilent : ∀ number signature, (build number signature).Silent) (number : ℕ)
    (signatures : List Symbol.Signature) :
    ∃ values, (overloads kind owner build number signatures).shown =
      (.ok values, overloadGaps kind owner gap? number signatures) := by
  induction signatures generalizing number with
  | nil => exact ⟨[], rfl⟩
  | cons signature signatures ih =>
    obtain ⟨value?, hfirst⟩ := (hlacks number signature).exists_shown_recover
      (hsilent number signature) (overloadName kind number owner)
    obtain ⟨values, hrest⟩ := ih (number + 1)
    refine ⟨value?.toList ++ values, ?_⟩
    rw [funext (leftOut_overloadName kind owner number)] at hfirst
    rw [overloadGaps] at hrest ⊢
    rw [ofOverloads_cons]
    simp [overloads, hfirst, hrest]

theorem told_overloads {kind owner : String} {build : ℕ → Symbol.Signature → Attempt n α}
    {gap? : Symbol.Signature → Option String}
    (hlacks : ∀ number signature, (build number signature).Lacks (gap? signature))
    (hsilent : ∀ number signature, (build number signature).Silent) (number : ℕ)
    (signatures : List Symbol.Signature) :
    (overloads kind owner build number signatures).notes.report.diagnostics =
      overloadGaps kind owner gap? number signatures := by
  obtain ⟨values, hshown⟩ := exists_shown_overloads hlacks hsilent number signatures
  exact congrArg Prod.snd hshown

namespace Context

variable {context : Context} {owner symbol : Symbol} {member : Symbol.Member}
  {signature : Symbol.Signature}

/-! ### Types that have a rendering -/

/-- **A foreign type has a rendering**: the table takes it for a primitive type, a class or an
interface. -/
def HasRendering (context : Context) (type : ForeignType) : Prop :=
  context.table.classify type ≠ .unrepresentable

/-- **A gap**: a type without a rendering, in its own words. -/
def gap? (context : Context) (type : ForeignType) : Option String :=
  if context.table.classify type = .unrepresentable then some type.text else none

/-- **The first gap** in some types. -/
def firstGap? (context : Context) (types : List ForeignType) : Option String :=
  types.findSome? context.gap?

theorem firstGap?_cons (context : Context) (type : ForeignType) (types : List ForeignType) :
    context.firstGap? (type :: types) = (context.gap? type).or (context.firstGap? types) := by
  rw [firstGap?, List.findSome?_cons]
  cases context.gap? type <;> rfl

/-- Where all types have renderings there is no gap. -/
theorem firstGap?_eq_none_iff {types : List ForeignType} :
    context.firstGap? types = none ↔ ∀ type ∈ types, context.HasRendering type := by
  simp [firstGap?, List.findSome?_eq_none_iff, gap?, HasRendering]

theorem isSome_typeRef?_iff {type : ForeignType} :
    (context.typeRef? type).isSome = true ↔ context.HasRendering type := by
  rw [typeRef?, HasRendering]
  cases context.table.classify type <;> simp

theorem isSome_declaredType?_iff {type? : Option ForeignType} :
    (context.declaredType? type?).isSome = true ↔
      ∃ type, type? = some type ∧ context.HasRendering type := by
  rw [declaredType?]
  cases type? with
  | none => simp
  | some type => simp [isSome_typeRef?_iff]

theorem lacks_resolve (context : Context) (type : ForeignType) :
    (context.resolve type).Lacks (context.gap? type) := by
  rw [resolve, gap?]
  cases context.table.classify type <;> rfl

/-! ### Signatures -/

/-- The types of the parameters of a signature. -/
def paramTypes (signature : Symbol.Signature) : List ForeignType :=
  signature.params.map (·.type)

/-- **What an overload becomes**, if its types all have renderings. -/
def signature? (context : Context) (name : String) (owner : Option Ident) (number : ℕ)
    (signature : Symbol.Signature) : Option Decl.Signature :=
  (context.params? signature.params).bind fun params =>
    (context.typeRef? signature.returns).map fun returns =>
      { ident := context.ident name, params, returns, owner, overload := number }

theorem isSome_params?_iff :
    (context.params? signature.params).isSome = true ↔
      ∀ type ∈ paramTypes signature, context.HasRendering type := by
  rw [paramTypes]
  induction signature.params with
  | nil => simp [params?]
  | cons param params ih =>
    rw [params?_cons, List.map_cons, List.forall_mem_cons, ← ih, ← isSome_typeRef?_iff]
    cases context.typeRef? param.type <;> simp

/-- **An overload becomes something** if its types all have renderings, and only then. -/
theorem isSome_signature?_iff {name : String} {owner : Option Ident} {number : ℕ} :
    (context.signature? name owner number signature).isSome = true ↔
      ∀ type ∈ signature.types, context.HasRendering type := by
  rw [Symbol.Signature.types, List.forall_mem_append, List.forall_mem_singleton, ← paramTypes,
    ← isSome_params?_iff, ← isSome_typeRef?_iff, signature?]
  cases context.params? signature.params <;> simp

theorem lacks_params (context : Context) (params : List Symbol.Param) :
    (context.params params).Lacks (context.firstGap? (params.map (·.type))) := by
  induction params with
  | nil => exact .done []
  | cons param params ih =>
    rw [List.map_cons, firstGap?_cons]
    exact (context.lacks_resolve param.type).bind fun _ => ih.map

theorem lacks_signature (context : Context) (name : String) (owner : Option Ident) (number : ℕ)
    (signature : Symbol.Signature) :
    (context.signature name owner number signature).Lacks (context.firstGap? signature.types) := by
  have htypes : context.firstGap? signature.types =
      (context.firstGap? (paramTypes signature)).or (context.gap? signature.returns) := by
    rw [Symbol.Signature.types, firstGap?, List.findSome?_append, List.findSome?_singleton]
    rfl
  rw [htypes]
  exact (context.lacks_params signature.params).bind fun _ =>
    (context.lacks_resolve signature.returns).map

theorem resolves_signature (context : Context) (name : String) (owner : Option Ident) (number : ℕ)
    (signature : Symbol.Signature) : (context.signature name owner number signature).Resolves
      (context.signature? name owner number signature) :=
  (context.resolves_params signature.params).bind fun _ =>
    (context.resolves_resolve signature.returns).map

/-- **The overloads that are left** of some function or method, with their numbers. -/
def acceptedSignatures (context : Context) (name : String) (owner : Option Ident) :
    List Symbol.Signature → List Decl.Signature :=
  ofOverloads (context.signature? name owner) 0

/-- **What is told of the overloads** of some function or method. -/
def signatureGaps (context : Context) (name : String) : List Symbol.Signature → List Diagnostic :=
  overloadGaps "overload" name (fun signature => context.firstGap? signature.types) 0

theorem shown_signatures (context : Context) (called name : String) (owner : Option Ident)
    (signatures : List Symbol.Signature) :
    (overloads "overload" called (context.signature name owner) 0 signatures).shown =
      (.ok (context.acceptedSignatures name owner signatures),
        context.signatureGaps called signatures) :=
  Prod.ext (outcome_overloads (context.resolves_signature name owner) 0 signatures)
    (told_overloads (context.lacks_signature name owner) (silent_signature name owner) 0 signatures)

/-! ### Variables and functions -/

/-- **The declarations of a variable or a function**, read off the table: the variable if it has a
type with a rendering, and the overloads that are left. -/
def tableValues (context : Context) (symbol : Symbol) : List Decl :=
  if context.denies symbol then []
  else
    match symbol.kind with
    | .global => ((context.declaredType? symbol.type).map fun type =>
        .global ⟨context.ident symbol.name, type⟩).toList
    | .function =>
      (context.acceptedSignatures symbol.name none symbol.signatures).map .signature
    | .classType | .interfaceType => []

/-- **What is told of the overloads of a symbol**, if it is a function that is not denied. -/
def functionGaps (context : Context) (symbol : Symbol) : List Diagnostic :=
  if symbol.kind = .function ∧ context.denies symbol = false then
    context.signatureGaps symbol.name symbol.signatures
  else []

theorem resolves_global (hallowed : context.denies symbol = false) :
    (context.global symbol).Resolves ((context.declaredType? symbol.type).map fun type =>
      ⟨context.ident symbol.name, type⟩) := by
  rw [Context.global, if_neg (Bool.eq_false_iff.mp hallowed), Option.map_eq_bind]
  exact (context.resolves_resolveDeclared symbol.type).bind fun type => ⟨"", rfl⟩

theorem shown_function (hallowed : context.denies symbol = false) :
    (context.function symbol).shown =
      (.ok (context.acceptedSignatures symbol.name none symbol.signatures),
        context.signatureGaps symbol.name symbol.signatures) := by
  rw [Context.function, if_neg (Bool.eq_false_iff.mp hallowed)]
  simp [shown_signatures, Report.debug]

/-- **What a symbol comes to** is read off the table. -/
theorem values_eq_tableValues (context : Context) (symbol : Symbol) :
    context.values symbol = context.tableValues symbol := by
  rw [tableValues]
  cases hkind : symbol.kind with
  | global =>
    cases hdenied : context.denies symbol with
    | true => exact (aside_of_denied (hkind ▸ rfl) hdenied).1
    | false =>
      obtain ⟨text, houtcome⟩ := resolves_global hdenied
      rw [values_of_shown (shown_aside_global hkind), houtcome]
      cases context.declaredType? symbol.type <;> rfl
  | function =>
    cases hdenied : context.denies symbol with
    | true => exact (aside_of_denied (hkind ▸ rfl) hdenied).1
    | false =>
      have houtcome : (context.function symbol).outcome =
          .ok (context.acceptedSignatures symbol.name none symbol.signatures) :=
        congrArg Prod.fst (shown_function hdenied)
      rw [values_of_shown (shown_aside_function hkind), houtcome]
      rfl
  | classType | interfaceType =>
    rw [values_of_isClassLike (hkind ▸ rfl)]
    split <;> rfl

/-! ### Members -/

/-- **The methods of a member**, unless it is denied or of another kind. -/
def methodsOf (context : Context) (owner : Symbol) (member : Symbol.Member) :
    List Decl.Signature :=
  if member.kind = .method ∧ context.config.deniesMember owner.name member.name = false then
    context.acceptedSignatures member.name (some (context.ident owner.name)) member.signatures
  else []

/-- **What is told of the overloads of a member**, unless it is denied, or declares constructors of
an interface. -/
def memberGaps (context : Context) (owner : Symbol) (member : Symbol.Member) : List Diagnostic :=
  match member.kind with
  | .constructor =>
    if owner.kind = .interfaceType then []
    else overloadGaps "constructor" owner.name
      (fun signature => context.firstGap? (paramTypes signature)) 0 member.signatures
  | .method =>
    if context.config.deniesMember owner.name member.name then []
    else context.signatureGaps (owner.name ++ ":" ++ member.name) member.signatures
  | .field | .other => []

theorem outcome_methods (hkind : member.kind = .method) :
    (context.methods owner member).outcome = .ok (context.methodsOf owner member) := by
  rw [methods, methodsOf]
  by_cases hdenied : context.config.deniesMember owner.name member.name = true
  · rw [if_pos hdenied, if_neg fun hboth => absurd hdenied (Bool.eq_false_iff.mp hboth.2)]
    rfl
  · rw [if_neg hdenied, if_pos ⟨hkind, Bool.eq_false_iff.mpr hdenied⟩]
    exact congrArg Prod.fst (context.shown_signatures _ _ _ _)

/-- **What a member adds to the methods.** -/
theorem methods_gain {declared : Bool} {more : Members}
    (h : (context.gain owner declared member).outcome = .ok more) :
    more.methods = context.methodsOf owner member := by
  have hother : member.kind ≠ .method → context.methodsOf owner member = [] :=
    fun hkind => if_neg fun hboth => hkind hboth.1
  rw [gain] at h
  split at h
  · next hkind =>
    obtain ⟨built, -, rfl⟩ := Attempt.exists_of_outcome_map h
    exact (hother (by simp [hkind])).symm
  · next hkind =>
    obtain ⟨built, -, rfl⟩ := Attempt.exists_of_outcome_map h
    exact (hother (by simp [hkind])).symm
  · next hkind =>
    obtain ⟨built, hbuilt, rfl⟩ := Attempt.exists_of_outcome_map h
    exact Except.ok.inj (hbuilt.symm.trans (outcome_methods hkind))
  · next hkind =>
    cases h
    exact (hother (by simp [hkind])).symm

/-- **What members come to** are their methods, one member after the other. -/
theorem Gathers.methods_eq {parent : Option TypeDecl} {built last : Members}
    {members : List Symbol.Member} {told : List Diagnostic}
    (h : context.Gathers owner parent built members last told) :
    last.methods = built.methods ++ members.flatMap (context.methodsOf owner) := by
  induction h with
  | nil built => exact (List.append_nil _).symm
  | cons hgain _ ih =>
    rw [ih, Members.methods_append, methods_gain (congrArg Prod.fst hgain), List.append_assoc,
      List.flatMap_cons]

/-- **The methods of a type** are those of the members of its symbol. -/
theorem methods_of_typeOn (hindexed : context.Indexed) {parent : Option TypeDecl}
    {type : TypeDecl} (htype : (context.typeOn owner parent).outcome = .ok type) :
    type.body.methods = owner.members.flatMap (context.methodsOf owner) := by
  obtain ⟨last, told, hgathers, rfl⟩ := exists_gathers_of_typeOn hindexed htype
  rw [body_extending]
  exact hgathers.methods_eq

/-- The methods of a type belong to it. -/
theorem owner_of_method (hindexed : context.Indexed) {parent : Option TypeDecl} {type : TypeDecl}
    (htype : (context.typeOn owner parent).outcome = .ok type) :
    ∀ method ∈ type.body.methods, method.owner = some type.ident := by
  intro method hmem
  rw [methods_of_typeOn hindexed htype] at hmem
  obtain ⟨member, -, hmem⟩ := List.mem_flatMap.mp hmem
  rw [methodsOf] at hmem
  split at hmem
  · obtain ⟨overload, -, hsignature⟩ := List.mem_filterMap.mp hmem
    obtain ⟨params, -, hreturns⟩ := Option.bind_eq_some_iff.mp hsignature
    obtain ⟨returns, -, rfl⟩ := Option.map_eq_some_iff.mp hreturns
    rw [ident_of_typeOn hindexed htype]
  · exact absurd hmem List.not_mem_nil

/-- **The constructors that a symbol declares itself.** Those of an interface do not count. -/
def ownConstructors (context : Context) (symbol : Symbol) : List Constructor :=
  if symbol.kind = .interfaceType then []
  else withParams (context.ident symbol.name) (context.acceptedParams symbol.members)

/-- **The constructors of a type** are those that its symbol declares itself, if there are any. -/
theorem allConstructors_of_typeOn (hindexed : context.Indexed) {parent : Option TypeDecl}
    {type : TypeDecl} (htype : (context.typeOn owner parent).outcome = .ok type) :
    type.body.constructors = allConstructors type.ident type.body.isAbstract type.parent?
      (context.ownConstructors owner) := by
  rw [ident_of_typeOn hindexed htype, parent?_of_typeOn hindexed htype,
    isAbstract_of_typeOn hindexed htype]
  obtain ⟨last, told, hgathers, rfl⟩ := exists_gathers_of_typeOn hindexed htype
  rw [body_extending]
  change allConstructors _ _ _ last.constructors = _
  rw [hgathers.constructors_eq]
  rfl

/-- A type that declares constructors itself has no others. -/
theorem constructors_eq_own (hindexed : context.Indexed) {parent : Option TypeDecl}
    {type : TypeDecl} (htype : (context.typeOn owner parent).outcome = .ok type)
    (hown : context.ownConstructors owner ≠ []) :
    type.body.constructors = context.ownConstructors owner := by
  rw [allConstructors_of_typeOn hindexed htype, allConstructors, if_pos (Or.inr hown)]

end Context

end Bindery.Assembly
