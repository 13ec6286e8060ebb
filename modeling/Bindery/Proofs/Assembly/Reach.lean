import Bindery.Proofs.Assembly.Mentions
import Bindery.Proofs.Assembly.Moves
import Bindery.Proofs.Assembly.Told

/-!
# Which types are reached

Types that are not listed are only built because something refers to them, or nearly so: a signature
that is dropped leaves over what was met of it. So from the listed symbols, all types of a module
are **reached** (`Bindery.Assembly.Context.Reached`) along the dependencies of what was built and
along what is left over from it (`Bindery.Assembly.Context.types_reached`).

The invariant of the run is that all that were built and all that wait are reached
(`Bindery.Assembly.State.Reaches`). A type that fails is not reached for the sake of its members, as
these are not even attempted, nor are the types above it, of which none is built.

What is left over cannot be done without: a type may be reached along nothing else
(`Bindery.Assembly.Context.leftover_unreached`).
-/

namespace Bindery.Assembly

open Decl (Key TypeDecl)

namespace Context

variable {context : Context} {listed refs : List context.Ref} {left : Symbol → String → Prop}
  {decls : List Decl} {state next last : State context.table.size} {ref : context.Ref}
  {outcome : Except Failure TypeDecl} {type : TypeDecl} {name : String}

/-! ### What is reached -/

/-- **What is reached** from the listed symbols, given what was declared and what is left over from
each symbol. -/
inductive Reached (context : Context) (listed : List context.Ref) (left : Symbol → String → Prop)
    (decls : List Decl) : String → Prop
  /-- A class or an interface is listed. -/
  | listed {ref : context.Ref} (href : ref ∈ listed)
    (hclass : (context.symbol ref).kind.isClassLike = true) :
    Reached context listed left decls (context.symbol ref).name
  /-- What a listed variable or function comes to depends on the type. -/
  | value {ref : context.Ref} {decl : Decl} {name : String} (href : ref ∈ listed)
    (hvalue : decl ∈ context.values (context.symbol ref)) (hdecl : decl ∈ decls)
    (hkey : .type name ∈ decl.dependencies) : Reached context listed left decls name
  /-- A type that is reached depends on the type. -/
  | dependency {type : TypeDecl} {name : String}
    (hreached : Reached context listed left decls type.ident.foreign) (hdecl : .type type ∈ decls)
    (hkey : .type name ∈ type.dependencies) : Reached context listed left decls name
  /-- The type is left over from a listed function. -/
  | leftByFunction {ref : context.Ref} {name : String} (href : ref ∈ listed)
    (hkind : (context.symbol ref).kind = .function) (hleft : left (context.symbol ref) name) :
    Reached context listed left decls name
  /-- The type is left over from the symbol that a type that is reached was built from. -/
  | leftByType {type : TypeDecl} {symbol : Symbol} {name : String}
    (hreached : Reached context listed left decls type.ident.foreign) (hdecl : .type type ∈ decls)
    (horiginal : context.original? type = some symbol) (hleft : left symbol name) :
    Reached context listed left decls name

/-- Whatever a type that is reached refers to is reached, itself included. -/
theorem Reached.of_references (h : context.Reached listed left decls type.ident.foreign)
    (hdecl : .type type ∈ decls) (hkey : .type name ∈ type.references) :
    context.Reached listed left decls name := by
  by_cases hown : Key.type name = type.key
  · exact Key.type.inj hown ▸ h
  · exact .dependency h hdecl (TypeDecl.mem_dependencies.mpr ⟨hown, hkey⟩)

end Context

/-! ### States in which all is reached -/

/-- **All that were built and all that wait** are of this kind. -/
structure State.Reaches (context : Context) (reached : String → Prop)
    (state : State context.table.size) : Prop where
  pending : ∀ ref ∈ state.pending, reached (context.symbol ref).name
  built : ∀ type ∈ state.built, reached type.ident.foreign

variable {context : Context} {listed refs : List context.Ref} {decls : List Decl}
  {state next last : State context.table.size} {ref : context.Ref}
  {outcome : Except Failure TypeDecl} {type : TypeDecl}

namespace Context

/-- **A type that is reached is built**, and what its members meet waits. -/
theorem reaches_enter {parent : Option TypeDecl} (hindexed : context.Indexed)
    (hfirst : context.IsFirst ref)
    (h : state.Reaches context (context.Reached listed context.LeftOver decls))
    (htype : (context.typeOn (context.symbol ref) parent).outcome = .ok type)
    (hdecl : .type type ∈ decls)
    (hreached : context.Reached listed context.LeftOver decls (context.symbol ref).name) :
    ((state.take (context.typeOn (context.symbol ref) parent).notes).enter
      (context.symbol ref).name type).Reaches context
        (context.Reached listed context.LeftOver decls) := by
  have hname : type.ident.foreign = (context.symbol ref).name := by
    rw [ident_of_typeOn hindexed htype]
    rfl
  rw [← hname] at hreached
  constructor
  · intro other hpending
    rcases List.mem_append.mp hpending with hpending | hmet
    · exact h.pending other hpending
    · have hclass := hindexed.isClassLike_of_isFirst hfirst
      rcases justifies_typeOn hindexed hclass parent other hmet with hleft | ⟨value, hvalue, hkey⟩
      · exact .leftByType hreached hdecl (original?_of_typeOn hindexed hfirst htype) hleft
      · obtain rfl := Except.ok.inj (htype.symm.trans hvalue)
        exact hreached.of_references hdecl hkey
  · intro other hbuilt
    rcases Array.mem_push.mp hbuilt with hbuilt | rfl
    · exact h.built other hbuilt
    · exact hreached

/-! ### Requests -/

/-- **A request that fails** builds nothing, and nothing more waits. -/
theorem Builds.unchanged_of_error {failure : Failure}
    (h : context.Builds state ref outcome next) (herror : outcome = .error failure) :
    next.built = state.built ∧ next.pending = state.pending := by
  induction h with
  | known => exact ⟨rfl, rfl⟩
  | denied => exact ⟨rfl, rfl⟩
  | unfit => exact ⟨rfl, rfl⟩
  | orphan _ _ _ _ ih => exact ih herror
  | top => exact nomatch herror
  | child => exact nomatch herror

/-- **A request for a type that is reached** reaches whatever it builds and whatever waits then. -/
theorem Builds.reaches (h : context.Builds state ref outcome next) (hindexed : context.Indexed)
    (hfirst : context.IsFirst ref) (hconsistent : state.Consistent)
    (hdecls : ∀ type ∈ next.built, .type type ∈ decls)
    (hreached : context.Reached listed context.LeftOver decls (context.symbol ref).name)
    (hstate : state.Reaches context (context.Reached listed context.LeftOver decls)) :
    next.Reaches context (context.Reached listed context.LeftOver decls) := by
  induction h with
  | known => exact hstate
  | denied => exact ⟨hstate.pending, hstate.built⟩
  | unfit => exact ⟨hstate.pending, hstate.built⟩
  | orphan _ _ _ hbuild =>
    obtain ⟨hbuilt, hpending⟩ := hbuild.unchanged_of_error rfl
    exact ⟨hpending ▸ hstate.pending, hbuilt ▸ hstate.built⟩
  | @top state ref _ _ _ _ htype =>
    have hopened : (state.opening (context.symbol ref).name ref).Reaches context _ :=
      ⟨hstate.pending, hstate.built⟩
    exact reaches_enter hindexed hfirst hopened htype (hdecls _ (Array.mem_push_self ..)) hreached
  | @child state _ ref parent above type hnew _ hextends hbuild htype ih =>
    have hdecl := hdecls type (Array.mem_push_self ..)
    have hopened : (state.opening (context.symbol ref).name ref).Consistent :=
      hconsistent.opening hnew
    -- the type on top depends on its parent
    have hparent : Key.type (context.symbol parent).name ∈ type.references := by
      rw [← (hbuild.consistent hindexed hopened).foreign_eq (hbuild.memo_of_ok rfl)]
      refine List.mem_append_left _ (List.mem_append_left _ (List.mem_append_left _ ?_))
      rw [parent?_of_typeOn hindexed htype]
      exact List.mem_singleton_self _
    have hname : type.ident.foreign = (context.symbol ref).name := by
      rw [ident_of_typeOn hindexed htype]
      rfl
    have habove := ih (hextends.isFirst hindexed) hopened
      (fun other hother => hdecls other (Array.mem_push_of_mem _ hother))
      (Reached.of_references (hname ▸ hreached) hdecl hparent) ⟨hstate.pending, hstate.built⟩
    exact reaches_enter hindexed hfirst habove htype hdecl hreached

/-! ### Moves -/

theorem Move.mem_built (h : context.Move listed state ref next) (hindexed : context.Indexed)
    (hbuilt : type ∈ state.built) : type ∈ next.built := by
  cases h with
  | aside _ _ heq => exact heq ▸ hbuilt
  | request _ hfirst hbuilds =>
    obtain ⟨types, htypes, -⟩ := hbuilds.exists_told hindexed hfirst
    rw [← Array.mem_toList_iff] at hbuilt ⊢
    exact htypes ▸ List.mem_append_left types hbuilt

/-- **A move reaches** whatever is built and whatever waits after it. -/
theorem Move.reaches (h : context.Move listed state ref next) (hindexed : context.Indexed)
    (hsound : state.Sound context nothing) (hdecls : ∀ type ∈ next.built, .type type ∈ decls)
    (hvalues : ∀ ref ∈ listed, context.values (context.symbol ref) ⊆ decls)
    (hstate : state.Reaches context (context.Reached listed context.LeftOver decls)) :
    next.Reaches context (context.Reached listed context.LeftOver decls) := by
  cases h with
  | aside href _ hbuilt _ hmet =>
    refine ⟨fun other hpending => ?_, hbuilt ▸ hstate.built⟩
    rw [hmet] at hpending
    rcases List.mem_append.mp hpending with hpending | hmet
    · exact hstate.pending other hpending
    · rcases of_mem_met_aside hindexed hmet with ⟨hkind, hleft⟩ | ⟨decl, hvalue, hkey⟩
      · exact .leftByFunction href hkind hleft
      · exact .value href hvalue (hvalues ref href hvalue) hkey
  | @request _ _ pending outcome hasked hfirst hbuilds =>
    have hreached : context.Reached listed context.LeftOver decls (context.symbol ref).name ∧
        pending ⊆ state.pending := by
      rcases hasked with ⟨href, rfl⟩ | hwaiting
      · exact ⟨.listed href (hindexed.isClassLike_of_isFirst hfirst), List.Subset.refl _⟩
      · exact ⟨hstate.pending ref (mem_pending_of_waiting hwaiting List.mem_cons_self),
          fun other hother => mem_pending_of_waiting hwaiting (List.mem_cons_of_mem ref hother)⟩
    have hasks : ({ state with pending } : State context.table.size).Reaches context _ :=
      ⟨fun other hother => hstate.pending other (hreached.2 hother), hstate.built⟩
    have hconsistent : ({ state with pending } : State context.table.size).Consistent :=
      ⟨hsound.consistent.foreign_eq, hsound.consistent.mem_built_iff⟩
    have hbuilt := hbuilds.reaches hindexed hfirst hconsistent hdecls hreached.1 hasks
    exact ⟨hbuilt.pending, hbuilt.built⟩

/-- **Moves reach** whatever is built and whatever waits in the end. -/
theorem Moves.reaches (h : context.Moves listed state refs last) (hindexed : context.Indexed)
    (hdecls : ∀ type ∈ last.built, .type type ∈ decls)
    (hvalues : ∀ ref ∈ listed, context.values (context.symbol ref) ⊆ decls)
    (hstate : state.Reaches context (context.Reached listed context.LeftOver decls)) :
    last.Reaches context (context.Reached listed context.LeftOver decls) := by
  induction h with
  | nil => exact hstate
  | cons hsound hmove hrest ih =>
    refine ih hdecls (hmove.reaches hindexed hsound (fun type hbuilt => ?_) hvalues hstate)
    -- what is built stays built
    exact hdecls type (hrest.keep (fun _ hmove => hmove.mem_built hindexed) hbuilt)

/-! ### Modules -/

/-- **All types of a module are reached**: each of them is that of a listed symbol, or there is a
way to it from what was built for a listed symbol, along the dependencies of types that were built
and along what is left over from the signatures that were dropped on the way. -/
theorem types_reached (sources : List String) (symbols : List Symbol) (config : Config)
    (count : Option ℕ) :
    let context : Context := ⟨.ofSymbols sources symbols, config⟩
    ∃ assembled, context.assemble (context.listed count) = .ok assembled ∧
      ∀ type, .type type ∈ assembled.decls →
        context.Reached (context.listed count) context.LeftOver assembled.decls
          type.ident.foreign := by
  intro context
  have hindexed : context.Indexed := indexed_ofSymbols sources symbols config
  obtain ⟨assembled, last, harises⟩ := exists_arises hindexed count
  obtain ⟨later, hmoves⟩ := harises.moves
  have hbuilt (type : TypeDecl) : .type type ∈ assembled.decls ↔ type ∈ last.built :=
    harises.ends.mem_decls_iff type
  have hinitial : (State.initial _).Reaches context
      (context.Reached (context.listed count) context.LeftOver assembled.decls) :=
    ⟨fun _ hpending => absurd hpending List.not_mem_nil,
      fun _ hbuilt => absurd hbuilt (Array.not_mem_empty _)⟩
  have hvalues : ∀ ref ∈ context.listed count,
      context.values (context.symbol ref) ⊆ assembled.decls := by
    intro ref href decl hvalue
    rw [harises.decls_eq]
    exact List.mem_append_right _ (List.mem_flatMap.mpr ⟨ref, href, hvalue⟩)
  have hreaches := hmoves.reaches hindexed (fun type => (hbuilt type).mpr) hvalues hinitial
  refine ⟨assembled, harises.assemble_eq, fun type htype => ?_⟩
  exact hreaches.built type ((hbuilt type).mp htype)

/-! ### A type that is left over -/

section Leftover

/-- A listed function that is given a class and something without a rendering, and the class. -/
private def leftover : Context :=
  ⟨.ofSymbols [] [.ofFunction "draw"
      [{ params := [⟨"scene", .named "Scene"⟩, ⟨"mode", .other "Mode[]"⟩] }],
    .ofClass "Scene"], Config.standard⟩

/-- **What is left over reaches types that nothing else does.** The function is dropped, but the
class is built. -/
theorem leftover_unreached : ∃ assembled,
    leftover.assemble (leftover.listed (some 1)) = .ok assembled ∧
      (∃ type, .type type ∈ assembled.decls ∧ type.ident.foreign = "Scene") ∧
      ¬ leftover.Reached (leftover.listed (some 1)) (fun _ _ => False) assembled.decls "Scene" := by
  have heval : (leftover.assemble (leftover.listed (some 1))).toOption.map (·.decls) =
      some [.type ⟨⟨⟨"Scene", "Scene"⟩, false, [], [⟨⟨"Scene", "Scene"⟩, []⟩], []⟩, []⟩] := by
    decide +kernel
  obtain ⟨assembled, hassemble, hdecls⟩ := exists_assembled_of_read heval
  -- the only listed symbol is no type, and comes to nothing
  have hlisted : ∀ ref ∈ leftover.listed (some 1),
      (leftover.symbol ref).kind.isClassLike = false ∧
        leftover.values (leftover.symbol ref) = [] := by
    decide +kernel
  refine ⟨assembled, hassemble, ⟨_, hdecls ▸ List.mem_singleton_self _, rfl⟩, ?_⟩
  suffices hnone : ∀ name, ¬ leftover.Reached (leftover.listed (some 1)) (fun _ _ => False)
      assembled.decls name from hnone "Scene"
  intro name hreached
  induction hreached with
  | listed href hclass => exact Bool.false_ne_true ((hlisted _ href).1.symm.trans hclass)
  | value href hvalue => exact List.not_mem_nil ((hlisted _ href).2 ▸ hvalue)
  | dependency _ _ _ ih => exact ih
  | leftByFunction _ _ hleft => exact hleft
  | leftByType _ _ _ hleft => exact hleft

end Leftover

end Context

end Bindery.Assembly
