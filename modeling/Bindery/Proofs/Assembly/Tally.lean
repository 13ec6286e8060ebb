import Bindery.Proofs.Assembly.Telling
import Bindery.Proofs.Assembly.Told
import Bindery.Proofs.Assembly.Values
import Mathlib.Algebra.Ring.Nat

/-!
# What becomes of the symbols

In its turn a symbol comes to as many declarations and diagnostics together as it counts for
(`Bindery.Assembly.Context.Turn.tally`). A class or an interface counts for one, which is its type
if it is the first of its name and declares one (`Bindery.Assembly.Context.Yields`), be it that the
type was built earlier, for the sake of another, and a diagnostic otherwise. Diagnostics that are
told of the members of a type come on top.

As each such type is built once, the declarations of a module and these diagnostics are as many as
all symbols count for (`Bindery.Assembly.Context.Assembles.exists_tally`).
-/

namespace Bindery.Assembly.Context

open Decl (TypeDecl)

variable {context : Context} {state next last : State context.table.size} {ref : context.Ref}
  {refs : List context.Ref} {decls values : List Decl} {assembled : Assembled}

/-! ### Turns -/

/-- **A symbol yields a type**: it is the first of its name and declares one. -/
def Yields (context : Context) (ref : context.Ref) : Prop :=
  context.IsFirst ref ∧ ∃ type, context.Declares ref type

theorem weight_of_isClassLike {symbol : Symbol} (hclass : symbol.kind.isClassLike = true) :
    context.weight symbol = 1 := by
  rw [weight, if_neg]
  rintro ⟨hkind, -⟩
  exact absurd (hkind ▸ hclass) (by decide)

/-- **What a turn adds**: types, with what is told of their members, and declarations and
diagnostics of the symbol itself. -/
structure Adds (context : Context) (state next : State context.table.size) (types : List TypeDecl)
    (others : List Diagnostic) : Prop where
  built : next.built.toList = state.built.toList ++ types
  told : next.report.diagnostics.Perm
    (state.report.diagnostics ++ (types.flatMap context.membersTold ++ others))

theorem Adds.trans {types types' : List TypeDecl} {others others' : List Diagnostic}
    (h : context.Adds state next types others) (h' : context.Adds next last types' others') :
    context.Adds state last (types ++ types') (others ++ others') where
  built := by rw [h'.built, h.built, List.append_assoc]
  told := by
    refine h'.told.trans ((h.told.append_right _).trans ?_)
    rw [List.append_assoc, List.flatMap_append]
    exact (perm_append_of_perms (.refl _) (.refl _)).append_left _

/-- **What a request adds** are the types that it builds. If it fails, a diagnostic says so. -/
theorem Builds.exists_adds {outcome : Except Failure TypeDecl}
    (h : context.Builds state ref outcome next) (hindexed : context.Indexed)
    (hfirst : context.IsFirst ref) (name : String) :
    ∃ types, context.Adds state (next.tell (absorb name outcome).2) types
      (absorb name outcome).2.diagnostics := by
  obtain ⟨types, hbuilt, htold⟩ := h.exists_told hindexed hfirst
  refine ⟨types, hbuilt, ?_⟩
  rw [← List.append_assoc, ← htold]
  exact .refl _

open scoped Classical in
/-- **A symbol counts once**: in its turn it comes to declarations and diagnostics, or it yields a
type. -/
theorem Turn.tally (h : context.Turn state ref decls next) (hindexed : context.Indexed)
    (hsound : state.Sound context nothing) :
    ∃ types others, context.Adds state next types others ∧
      decls.length + others.length + (if context.Yields ref then 1 else 0) =
        context.weight (context.symbol ref) := by
  cases h with
  | aside hlater hmemo hbuilt htold =>
    refine ⟨[], context.omissions (context.symbol ref), ⟨?_, .of_eq htold⟩, ?_⟩
    · rw [hbuilt, List.append_nil]
    · rw [if_neg fun hyields => hlater hyields.1]
      exact length_values_add hindexed (context.symbol ref)
  | @request outcome last hfirst hbuilds =>
    obtain ⟨types, hadds⟩ := hbuilds.exists_adds hindexed hfirst (context.symbol ref).name
    -- no type is under construction between turns, so the answer is right
    obtain ⟨-, hanswers⟩ := hbuilds.right hindexed hfirst
      (fun name hopen => absurd hopen (hsound.idle name)) hsound.right
    refine ⟨types, _, hadds, ?_⟩
    rw [weight_of_isClassLike (hindexed.isClassLike_of_isFirst hfirst)]
    cases outcome with
    | ok type =>
      rw [if_pos ⟨hfirst, type, hanswers⟩]
      rfl
    | error failure =>
      rw [if_neg fun hyields => hyields.2.elim hanswers,
        length_absorb_error _ (hbuilds.isRecoverable rfl)]
      rfl

open scoped Classical in
/-- **All turns together.** -/
theorem Turns.tally (h : context.Turns state refs values last) (hindexed : context.Indexed) :
    ∃ types others, context.Adds state last types others ∧
      values.length + others.length + refs.countP (fun ref => context.Yields ref) =
        (refs.map fun ref => context.weight (context.symbol ref)).sum := by
  induction h with
  | nil state => exact ⟨[], [], ⟨(List.append_nil _).symm, .of_eq (List.append_nil _).symm⟩, rfl⟩
  | @cons state next last ref refs decls rest hsound hturn _ ih =>
    obtain ⟨types, others, hadds, hlength⟩ := hturn.tally hindexed hsound
    obtain ⟨types', others', hadds', hlength'⟩ := ih
    refine ⟨types ++ types', others ++ others', hadds.trans hadds', ?_⟩
    rw [List.map_cons, List.sum_cons, ← hlength, ← hlength', List.countP_cons, List.length_append,
      List.length_append]
    simp only [decide_eq_true_eq]
    omega

/-! ### Each type is built once -/

/-- The names of the types that were built. -/
def builtNames {n : ℕ} (state : State n) : List String :=
  state.built.toList.map fun type => type.ident.foreign

/-- A type that was under construction is a new one. -/
theorem nodup_builtNames_enter {name : String} {type : TypeDecl} (h : state.Consistent)
    (hopen : state.memo[name]? = some .underConstruction) (hname : type.ident.foreign = name)
    (hnodup : (builtNames state).Nodup) : (builtNames (state.enter name type)).Nodup := by
  have hpush : builtNames (state.enter name type) = builtNames state ++ [name] := by
    change (state.built.push type).toList.map _ = _
    rw [Array.toList_push, List.map_append, ← hname]
    rfl
  rw [hpush, List.nodup_append]
  refine ⟨hnodup, List.nodup_singleton name, fun other hother last hlast heq => ?_⟩
  obtain ⟨earlier, hearlier, rfl⟩ := List.mem_map.mp hother
  have hbuilt := (h.mem_built_iff earlier).mp (Array.mem_toList_iff.mp hearlier)
  rw [heq, List.mem_singleton.mp hlast, hopen] at hbuilt
  exact nomatch hbuilt

/-- **A request builds no type twice.** -/
theorem Builds.nodup_builtNames {outcome : Except Failure TypeDecl}
    (h : context.Builds state ref outcome next) (hindexed : context.Indexed)
    (hconsistent : state.Consistent) (hnodup : (builtNames state).Nodup) :
    (builtNames next).Nodup := by
  induction h with
  | known => exact hnodup
  | denied => exact hnodup
  | unfit => exact hnodup
  | orphan hnew _ _ _ ih => exact ih (hconsistent.opening hnew) hnodup
  | top hnew _ _ htype =>
    refine nodup_builtNames_enter ((hconsistent.opening hnew).take _) memo_opening_self ?_ hnodup
    rw [ident_of_typeOn hindexed htype]
    rfl
  | @child _ _ ref _ _ _ hnew _ _ hbuild htype ih =>
    have hopened : (State.opening _ _ ref).Consistent := hconsistent.opening hnew
    refine nodup_builtNames_enter ((hbuild.consistent hindexed hopened).take _)
      (hbuild.memo_eq memo_opening_self) ?_ (ih hopened hnodup)
    rw [ident_of_typeOn hindexed htype]
    rfl

theorem Turns.nodup_builtNames (h : context.Turns state refs values last)
    (hindexed : context.Indexed) (hnodup : (builtNames state).Nodup) : (builtNames last).Nodup := by
  induction h with
  | nil => exact hnodup
  | cons hsound hturn _ ih =>
    refine ih ?_
    cases hturn with
    | aside _ _ hbuilt => rwa [builtNames, hbuilt]
    | request _ hbuilds => exact hbuilds.nodup_builtNames hindexed hsound.consistent hnodup

/-! ### Modules -/

namespace Assembles

variable (h : context.Assembles assembled values last)

include h

/-- The types of a module are those that are declared by the first types of their names. -/
theorem mem_builtNames_iff (hindexed : context.Indexed) {name : String} :
    name ∈ builtNames last ↔ ∃ ref, context.Yields ref ∧ (context.symbol ref).name = name := by
  constructor
  · intro hname
    obtain ⟨type, htype, rfl⟩ := List.mem_map.mp hname
    obtain ⟨ref, hlookup, hdeclares⟩ :=
      (h.type_mem_decls_iff hindexed).mp ((h.type_mem_iff hindexed type).mpr htype)
    exact ⟨ref, ⟨hindexed.isFirst hlookup, type, hdeclares⟩, hindexed.name_eq hlookup⟩
  · rintro ⟨ref, ⟨hfirst, type, hdeclares⟩, rfl⟩
    have hname := hdeclares.foreign_eq hindexed
    have htype := (h.type_mem_decls_iff hindexed).mpr ⟨ref, hname ▸ hfirst, hdeclares⟩
    exact List.mem_map.mpr ⟨type, (h.type_mem_iff hindexed type).mp htype, hname⟩

open scoped Classical in
/-- **As many types are built as symbols yield one.** -/
theorem length_built (hindexed : context.Indexed) : last.built.toList.length =
    (List.finRange context.table.size).countP fun ref => context.Yields ref := by
  -- no name is built twice, and no two symbols yield types of one name
  let yielding := (List.finRange context.table.size).filter fun ref => context.Yields ref
  have hyielding : ∀ ref ∈ yielding, context.Yields ref := fun ref href =>
    of_decide_eq_true (List.mem_filter.mp href).2
  have hnodup : (yielding.map fun ref => (context.symbol ref).name).Nodup :=
    ((List.nodup_finRange _).filter _).map_on fun a ha b hb hname =>
      (hyielding a ha).1.eq (hyielding b hb).1 hname
  have hperm : (builtNames last).Perm (yielding.map fun ref => (context.symbol ref).name) := by
    refine (List.perm_ext_iff_of_nodup (h.turns.nodup_builtNames hindexed .nil) hnodup).mpr ?_
    intro name
    rw [h.mem_builtNames_iff hindexed, List.mem_map]
    refine exists_congr fun ref => and_congr_left fun _ => ?_
    exact ⟨fun hyields => List.mem_filter.mpr ⟨List.mem_finRange ref, decide_eq_true hyields⟩,
      hyielding ref⟩
  calc last.built.toList.length = (builtNames last).length := (List.length_map _).symm
    _ = (yielding.map fun ref => (context.symbol ref).name).length := hperm.length_eq
    _ = yielding.length := List.length_map _
    _ = _ := List.countP_eq_length_filter.symm

/-- **Every symbol is accounted for once.** Apart from what is told of the members of types, the
declarations and the diagnostics are as many as the symbols count for. -/
theorem exists_tally (hindexed : context.Indexed) :
    ∃ others, assembled.report.diagnostics.Perm
        ((types assembled.decls).flatMap context.membersTold ++ others) ∧
      assembled.decls.length + others.length =
        (context.table.symbols.toList.map context.weight).sum := by
  obtain ⟨built, others, hadds, hlength⟩ := h.turns.tally hindexed
  have hbuilt : last.built.toList = built := hadds.built
  refine ⟨others, ?_, ?_⟩
  · rw [h.diagnostics_eq, h.types_eq hindexed, hbuilt]
    exact hadds.told
  · rw [h.decls_eq, List.length_append, List.length_map, h.length_built hindexed,
      ← map_symbol_finRange, List.map_map]
    refine Eq.trans ?_ hlength
    omega

end Assembles

end Bindery.Assembly.Context
