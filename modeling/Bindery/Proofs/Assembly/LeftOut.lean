import Bindery.Proofs.Assembly.Moves
import Bindery.Proofs.Assembly.Overloads
import Bindery.Proofs.Assembly.Tally

/-!
# Overloads that are left out

A diagnostic about an overload says that it skips one, and gives its number
(`Bindery.Diagnostic.skipsOverload`). Whatever else is told in a run begins with other words. So
such diagnostics can be sifted out, and what is left over is what was known beforehand: the gaps in
the overloads of functions (`Bindery.Assembly.Context.functionGaps`), and those in the overloads of
the members of types (`Bindery.Assembly.Context.typeGaps`).

As each type is built once, and each listed function has one turn, each overload that is left out is
told of once (`Bindery.Assembly.Context.overloads_independent`). This does not hold of constructors
of interfaces, as these are passed over without a word
(`Bindery.Assembly.Context.interface_constructors_ignored`).
-/

namespace Bindery

/-- **A diagnostic is about an overload**, be it of a constructor. -/
def Diagnostic.skipsOverload (diagnostic : Diagnostic) : Bool :=
  diagnostic.kind = .skipped &&
    ("skipping overload #".toList.isPrefixOf diagnostic.message.toList ||
      "skipping constructor #".toList.isPrefixOf diagnostic.message.toList)

/-- Whether a diagnostic is about an overload is seen from how it begins. -/
@[simp] theorem Diagnostic.skipsOverload_skipped (message : String) :
    (Diagnostic.skipped message).skipsOverload =
      ("skipping overload #".toList.isPrefixOf message.toList ||
        "skipping constructor #".toList.isPrefixOf message.toList) :=
  Bool.true_and _

namespace Assembly

open Decl (TypeDecl)

variable {n : ℕ} {α : Type} {kind owned : String}

/-! ### What is told of overloads -/

/-- **Overloads of this kind** are told of as such. -/
def IsOverload (kind : String) : Prop :=
  ∀ owner number type, (overloadGap kind owner number type).skipsOverload = true

theorem isOverload_overload : IsOverload "overload" := by
  intro owner number type
  simp [Diagnostic.skipsOverload, overloadGap, List.isPrefixOf]

theorem isOverload_constructor : IsOverload "constructor" := by
  intro owner number type
  simp [Diagnostic.skipsOverload, overloadGap, List.isPrefixOf]

/-- Whatever is told of overloads is about overloads. -/
theorem filter_overloadGaps (hkind : IsOverload kind) (gap? : Symbol.Signature → Option String)
    (number : ℕ) (signatures : List Symbol.Signature) :
    (overloadGaps kind owned gap? number signatures).filter (·.skipsOverload) =
      overloadGaps kind owned gap? number signatures := by
  refine List.filter_eq_self.mpr fun diagnostic hmem => ?_
  obtain ⟨overload, -, hgap⟩ := List.mem_filterMap.mp hmem
  obtain ⟨type, -, rfl⟩ := Option.map_eq_some_iff.mp hgap
  exact hkind _ _ _

/-! ### What is told of anything else -/

/-- An attempt tells nothing about overloads. -/
abbrev Attempt.OverloadFree (attempt : Attempt n α) : Prop :=
  attempt.Tells (·.skipsOverload = false)

theorem filter_eq_nil_of_forall {diagnostics : List Diagnostic}
    (h : ∀ diagnostic ∈ diagnostics, diagnostic.skipsOverload = false) :
    diagnostics.filter (·.skipsOverload) = [] :=
  List.filter_eq_nil_iff.mpr fun diagnostic hmem => Bool.eq_false_iff.mp (h diagnostic hmem)

theorem overloadFree_tell {message : String}
    (h : (Diagnostic.skipped message).skipsOverload = false) :
    (Attempt.tell (.skipped message) : Attempt n Unit).OverloadFree := by
  intro diagnostic hmem
  rw [List.mem_singleton.mp hmem]
  exact h

/-- To recover from a silent attempt tells what was attempted. -/
theorem Attempt.Silent.overloadFree_recover {attempt : Attempt n α} (h : attempt.Silent)
    {what : String} (hwhat : ∀ type, (leftOut what type).skipsOverload = false) :
    (attempt.recover what).OverloadFree := by
  rw [Attempt.recover]
  split
  · exact h.tells
  · next type _ =>
    intro diagnostic hmem
    rcases List.mem_append.mp hmem with hmem | hmem
    · exact absurd hmem (h diagnostic)
    · rw [List.mem_singleton.mp hmem]
      exact hwhat type
  · exact h.tells

/-- A symbol that is left out as a whole is no overload. -/
theorem filter_absorb {name : String} (outcome : Except Failure α) :
    (absorb name outcome).2.diagnostics.filter (·.skipsOverload) = [] := by
  refine filter_eq_nil_of_forall ?_
  cases outcome with
  | ok value => exact fun _ hmem => absurd hmem List.not_mem_nil
  | error failure =>
    rw [absorb]
    split
    · intro diagnostic hmem
      rw [List.mem_singleton.mp hmem]
      simp [List.isPrefixOf]
    · exact fun _ hmem => absurd hmem List.not_mem_nil

namespace Context

variable {context : Context} {state next last : State context.table.size} {ref : context.Ref}
  {refs : List context.Ref} {decls values : List Decl} {owner symbol : Symbol}
  {member : Symbol.Member} {parent : Option TypeDecl}

/-! ### Members -/

theorem overloadFree_field (declared : String → Bool) :
    (context.field owner declared member).OverloadFree := by
  rw [field]
  split
  · exact (overloadFree_tell (by simp [List.isPrefixOf])).bind fun _ => .of_nil rfl
  · split
    · exact .of_nil rfl
    · exact Attempt.Silent.overloadFree_recover
        ((silent_resolveDeclared member.type).bind fun _ => .of_nil rfl)
        (by simp [leftOut, List.isPrefixOf])

theorem filter_told_constructors :
    (context.constructors owner member).notes.report.diagnostics.filter (·.skipsOverload) =
      if owner.kind = .interfaceType then []
      else overloadGaps "constructor" owner.name
        (fun signature => context.firstGap? (paramTypes signature)) 0 member.signatures := by
  rw [constructors]
  split
  · rfl
  · rw [told_overloads (fun _ signature => (context.lacks_params signature.params).map)
      (fun _ signature => (silent_params signature.params).bind fun _ => .of_nil rfl)]
    exact filter_overloadGaps isOverload_constructor _ _ _

theorem filter_signatureGaps (name : String) (signatures : List Symbol.Signature) :
    (context.signatureGaps name signatures).filter (·.skipsOverload) =
      context.signatureGaps name signatures :=
  filter_overloadGaps isOverload_overload _ _ _

theorem filter_told_methods :
    (context.methods owner member).notes.report.diagnostics.filter (·.skipsOverload) =
      if context.config.deniesMember owner.name member.name then []
      else context.signatureGaps (owner.name ++ ":" ++ member.name) member.signatures := by
  rw [methods]
  split
  · refine filter_eq_nil_of_forall (Attempt.Tells.bind (overloadFree_tell ?_) fun _ => .of_nil rfl)
    simp [List.isPrefixOf]
  · rw [← filter_signatureGaps]
    exact congrArg _ (congrArg Prod.snd (context.shown_signatures _ _ _ _))

/-- **What is told of the overloads of a member** while it is built. -/
theorem filter_told_gain (declared : Bool) :
    (context.gain owner declared member).shown.2.filter (·.skipsOverload) =
      context.memberGaps owner member := by
  rw [gain, memberGaps]
  cases member.kind with
  | constructor =>
    rw [Attempt.shown_map]
    exact filter_told_constructors
  | field =>
    rw [Attempt.shown_map]
    exact filter_eq_nil_of_forall (overloadFree_field _)
  | method =>
    rw [Attempt.shown_map]
    exact filter_told_methods
  | other =>
    refine filter_eq_nil_of_forall (Attempt.Tells.bind (overloadFree_tell ?_) fun _ => .of_nil rfl)
    simp [memberName, List.isPrefixOf]

theorem Gathers.filter_told {built last : Members} {members : List Symbol.Member}
    {told : List Diagnostic} (h : context.Gathers owner parent built members last told) :
    told.filter (·.skipsOverload) = members.flatMap (context.memberGaps owner) := by
  induction h with
  | nil => rfl
  | cons hgain _ ih =>
    rw [List.filter_append, ih, List.flatMap_cons, ← filter_told_gain, hgain]

/-- **What is told of the overloads of the members of a type**, read off the symbol that it was
built from. -/
def typeGaps (context : Context) (type : TypeDecl) : List Diagnostic :=
  (context.original? type).elim [] fun symbol => symbol.members.flatMap (context.memberGaps symbol)

theorem filter_membersTold (hindexed : context.Indexed) (type : TypeDecl) :
    (context.membersTold type).filter (·.skipsOverload) = context.typeGaps type := by
  rw [membersTold, typeGaps]
  cases context.original? type with
  | none => rfl
  | some symbol =>
    obtain ⟨last, told, hgathers⟩ :=
      exists_gathers hindexed symbol type.parent? {} symbol.members
    rw [Option.elim_some, Option.elim_some, shown_typeOn_eq hgathers]
    exact hgathers.filter_told

/-! ### Symbols that stand aside -/

theorem functionGaps_of_isClassLike (hclass : symbol.kind.isClassLike = true) :
    context.functionGaps symbol = [] := by
  refine if_neg fun hboth => ?_
  rw [hboth.1] at hclass
  exact absurd hclass (by decide)

/-- **What is told of the overloads of a symbol** that stands aside. -/
theorem filter_omissions (symbol : Symbol) :
    (context.omissions symbol).filter (·.skipsOverload) = context.functionGaps symbol := by
  rw [omissions, List.filter_append, filter_absorb, List.append_nil]
  cases hkind : symbol.kind with
  | global =>
    rw [shown_aside_global hkind, functionGaps, if_neg (by simp [hkind])]
    exact filter_eq_nil_of_forall (silent_global symbol).tells
  | function =>
    rw [shown_aside_function hkind, functionGaps]
    cases hdenied : context.denies symbol with
    | true =>
      rw [Context.function, if_pos hdenied, if_neg (by simp)]
      rfl
    | false =>
      have htold : (context.function symbol).notes.report.diagnostics =
          context.signatureGaps symbol.name symbol.signatures :=
        congrArg Prod.snd (shown_function hdenied)
      rw [htold, if_pos ⟨hkind, rfl⟩, filter_signatureGaps]
  | classType | interfaceType =>
    have hclass : symbol.kind.isClassLike = true := hkind ▸ rfl
    rw [shown_aside_classLike hclass, functionGaps_of_isClassLike hclass]
    simp [List.isPrefixOf]

/-! ### Turns -/

theorem Adds.refl (state : State context.table.size) : context.Adds state state [] [] :=
  ⟨(List.append_nil _).symm, .of_eq (List.append_nil _).symm⟩

/-- **What a turn tells of overloads**, apart from those of members. -/
theorem Turn.exists_adds (h : context.Turn state ref decls next) (hindexed : context.Indexed) :
    ∃ types others, context.Adds state next types others ∧
      others.filter (·.skipsOverload) = context.functionGaps (context.symbol ref) := by
  cases h with
  | aside hlater hmemo hbuilt htold =>
    exact ⟨[], _, ⟨by rw [hbuilt, List.append_nil], .of_eq htold⟩, filter_omissions _⟩
  | @request outcome last hfirst hbuilds =>
    obtain ⟨types, hadds⟩ := hbuilds.exists_adds hindexed hfirst (context.symbol ref).name
    refine ⟨types, _, hadds, ?_⟩
    rw [filter_absorb, functionGaps_of_isClassLike (hindexed.isClassLike_of_isFirst hfirst)]

theorem Turns.exists_adds (h : context.Turns state refs values last) (hindexed : context.Indexed) :
    ∃ types others, context.Adds state last types others ∧ others.filter (·.skipsOverload) =
      refs.flatMap fun ref => context.functionGaps (context.symbol ref) := by
  induction h with
  | nil state => exact ⟨[], [], .refl state, rfl⟩
  | cons _ hturn _ ih =>
    obtain ⟨types, others, hadds, hothers⟩ := hturn.exists_adds hindexed
    obtain ⟨types', others', hadds', hothers'⟩ := ih
    refine ⟨_, _, hadds.trans hadds', ?_⟩
    rw [List.filter_append, hothers, hothers', List.flatMap_cons]

/-- **What waits in the end** tells of overloads of members only. -/
theorem exists_adds_drain (hindexed : context.Indexed) (hsound : state.Sound context nothing) :
    ∃ types others, context.Adds state (context.drain state).2 types others ∧
      others.filter (·.skipsOverload) = [] := by
  fun_induction drain context state with
  | case1 state hwaiting => exact ⟨[], [], ⟨(Adds.refl state).built, (Adds.refl state).told⟩, rfl⟩
  | case2 state ref pending hwaiting result absorbed failure herror =>
    exact absurd herror (absorb_build_ne_error hindexed { state with pending } ref failure)
  | case3 state ref pending hwaiting result absorbed value hvalue ih =>
    have hfirst := hsound.covered.isFirst_of_pending ref
      (mem_pending_of_waiting hwaiting List.mem_cons_self)
    obtain ⟨types, hadds⟩ := (context.builds hindexed { state with pending } ref).exists_adds
      hindexed hfirst (context.symbol ref).name
    obtain ⟨types', others', hadds', hothers'⟩ := ih (hsound.answer hindexed hwaiting absorbed.2)
    refine ⟨_, _, Adds.trans ⟨hadds.built, hadds.told⟩ hadds', ?_⟩
    rw [List.filter_append, filter_absorb, hothers', List.append_nil]

/-! ### Modules -/

/-- **What a module tells of overloads**: the gaps in the members of its types, and those in the
functions that are listed. -/
theorem exists_told_overloads (hindexed : context.Indexed) (count : Option ℕ) :
    ∃ assembled final, context.assemble (context.listed count) = .ok assembled ∧
      context.Ends (context.listed count) assembled.decls final ∧
      assembled.decls = (types assembled.decls).map .type ++
        (context.listed count).flatMap (fun ref => context.tableValues (context.symbol ref)) ∧
      (assembled.report.diagnostics.filter (·.skipsOverload)).Perm
        ((types assembled.decls).flatMap context.typeGaps ++
          (context.listed count).flatMap fun ref => context.functionGaps (context.symbol ref)) := by
  have hfirsts : context.FirstsLead (.initial _) (context.listed count) :=
    firstsLead_listed hindexed count
  obtain ⟨values, state, hlisted, hleaves, -⟩ :=
    exists_buildListed hindexed (context.listed count) .initial hfirsts
  have hturns := turns_buildListed hindexed .initial hfirsts hlisted
  obtain ⟨built, others, hadds, hothers⟩ := hturns.exists_adds hindexed
  obtain ⟨built', others', hadds', hothers'⟩ := exists_adds_drain hindexed hleaves.sound
  obtain ⟨last, hdrain, -⟩ := exists_drain hindexed hleaves.sound
  rw [hdrain] at hadds'
  obtain ⟨assembled, hassemble, hdecls, htold, hends⟩ := ends_of_drain hindexed hlisted hdrain
  obtain ⟨hbuilt, hperm⟩ := hadds.trans hadds'
  have htypes : types assembled.decls = last.built.toList := hdecls ▸ types_append hleaves.ne_type
  refine ⟨assembled, last, hassemble, hends, ?_, ?_⟩
  · rw [htypes, hdecls, hturns.values_eq hindexed]
    exact congrArg _ (List.flatMap_congr fun ref _ => values_eq_tableValues _ _)
  · rw [htold, htypes, hbuilt]
    refine (hperm.filter _).trans (.of_eq ?_)
    simp only [State.initial, List.filter_append, List.filter_flatMap, hothers, hothers',
      filter_membersTold hindexed]
    rw [List.append_nil]
    rfl

/-- **Overloads stand or fall by themselves.** The variables and functions of a module are read off
the table, and so are the methods of its types and the constructors that they declare themselves,
all with the numbers that the overloads have. An overload is among them if the types in it have
renderings, and only then; what a constructor returns does not matter. Each one that is not is told
of once, by its number, and no diagnostic about an overload is about anything else. -/
theorem overloads_independent (sources : List String) (symbols : List Symbol) (config : Config)
    (count : Option ℕ) :
    let context : Context := ⟨.ofSymbols sources symbols, config⟩
    ∃ assembled, context.assemble (context.listed count) = .ok assembled ∧
      assembled.decls = (types assembled.decls).map .type ++
        (context.listed count).flatMap (fun ref => context.tableValues (context.symbol ref)) ∧
      (∀ type, .type type ∈ assembled.decls → ∃ symbol, context.original? type = some symbol ∧
        type.body.methods = symbol.members.flatMap (context.methodsOf symbol) ∧
        (∀ method ∈ type.body.methods, method.owner = some type.ident) ∧
        (context.ownConstructors symbol ≠ [] →
          type.body.constructors = context.ownConstructors symbol) ∧
        type.body.constructors = allConstructors type.ident type.body.isAbstract type.parent?
          (context.ownConstructors symbol)) ∧
      (assembled.report.diagnostics.filter (·.skipsOverload)).Perm
        ((types assembled.decls).flatMap context.typeGaps ++
          (context.listed count).flatMap fun ref => context.functionGaps (context.symbol ref)) ∧
      (∀ type? : Option ForeignType, (context.declaredType? type?).isSome = true ↔
        ∃ type, type? = some type ∧ context.HasRendering type) ∧
      ∀ signature : Symbol.Signature,
        (∀ name owner number, (context.signature? name owner number signature).isSome = true ↔
          ∀ type ∈ signature.types, context.HasRendering type) ∧
        (context.firstGap? signature.types = none ↔
          ∀ type ∈ signature.types, context.HasRendering type) ∧
        ((context.params? signature.params).isSome = true ↔
          ∀ type ∈ paramTypes signature, context.HasRendering type) ∧
        (context.firstGap? (paramTypes signature) = none ↔
          ∀ type ∈ paramTypes signature, context.HasRendering type) := by
  intro context
  have hindexed : context.Indexed := indexed_ofSymbols sources symbols config
  obtain ⟨assembled, final, hassemble, hends, hdecls, hperm⟩ :=
    exists_told_overloads hindexed count
  refine ⟨assembled, hassemble, hdecls, fun type htype => ?_, hperm,
    fun _ => isSome_declaredType?_iff, fun signature => ?_⟩
  · obtain ⟨ref, hlookup, hdeclares⟩ := hends.exists_declares htype
    have hon := hdeclares.typeOn_eq hindexed
    exact ⟨context.symbol ref, original?_of_typeOn hindexed (hindexed.isFirst hlookup) hon,
      methods_of_typeOn hindexed hon, owner_of_method hindexed hon,
      constructors_eq_own hindexed hon, allConstructors_of_typeOn hindexed hon⟩
  · exact ⟨fun _ _ _ => isSome_signature?_iff, firstGap?_eq_none_iff, isSome_params?_iff,
      firstGap?_eq_none_iff⟩

/-! ### Constructors of interfaces -/

section Handle

/-- An interface that declares constructors: one overload has types with renderings, and the other
has none for what it takes. -/
private def handleSymbol : Symbol :=
  (Symbol.ofInterface "Handle").withMember (.ofConstructor
    [{ params := [⟨"id", .number⟩] }, { params := [⟨"flags", .other "Flag[]"⟩] }])

private def handle : Context := ⟨.ofSymbols [] [handleSymbol], Config.standard⟩

/-- **Constructors of an interface are ignored.** The type has none, although there is an overload
in which all types have renderings, and nothing is told of the other one. -/
theorem interface_constructors_ignored : ∃ assembled,
    handle.assemble (handle.listed none) = .ok assembled ∧
      (∃ type, .type type ∈ assembled.decls ∧ handle.original? type = some handleSymbol ∧
        type.body.constructors = []) ∧
      assembled.report.diagnostics = [] ∧
      (∃ member ∈ handleSymbol.members, member.kind = .constructor ∧
        ∃ fitting lacking, member.signatures = [fitting, lacking] ∧
          (∀ type ∈ paramTypes fitting, handle.HasRendering type) ∧
          handle.firstGap? (paramTypes lacking) = some "Flag[]") := by
  have heval : (handle.assemble (handle.listed none)).toOption.map
        (fun assembled => (assembled.decls, assembled.report.diagnostics)) =
      some ([.type ⟨⟨⟨"Handle", "Handle"⟩, true, [], [], []⟩, []⟩], []) := by
    decide +kernel
  obtain ⟨assembled, hassemble, hread⟩ := exists_assembled_of_read heval
  obtain ⟨hdecls, htold⟩ := Prod.mk.inj hread
  refine ⟨assembled, hassemble, ⟨_, hdecls ▸ List.mem_singleton_self _, ?_, rfl⟩, htold,
    _, List.mem_singleton_self _, rfl, _, _, rfl, ?_, ?_⟩
  · decide +kernel
  · exact firstGap?_eq_none_iff.mp (by decide +kernel)
  · decide +kernel

end Handle

end Context

end Assembly

end Bindery
