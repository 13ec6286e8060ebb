import Bindery.Proofs.Assembly.Mentions
import Bindery.Proofs.Assembly.Request
import Mathlib.Algebra.Ring.Nat

/-!
# How much can wait

Each type that is built may have others wait, so the queue can grow while it is worked off. But a
name is built once, and what its members meet is no more than the types that they mention
(`Bindery.Assembly.Context.meets_typeOn`). So what waits already and what the names that are not
known yet can still add to it make a total, the **demand** of a state
(`Bindery.Assembly.Context.demand`), which no request raises
(`Bindery.Assembly.Context.Builds.demand_le`): a type takes at least as much from the second part as
it adds to the first.
-/

namespace Bindery

/-! ### What is mentioned -/

/-- How many types some signatures mention. -/
def Symbol.Signature.mentions (signatures : List Symbol.Signature) : ℕ :=
  (signatures.map fun signature => signature.types.length).sum

/-- How many types a member mentions, at most. -/
def Symbol.Member.mentions (member : Symbol.Member) : ℕ :=
  1 + Symbol.Signature.mentions member.signatures

/-- **How many types a symbol mentions**, at most: its own, those of its signatures, and those of
its members. -/
def Symbol.mentions (symbol : Symbol) : ℕ :=
  1 + Symbol.Signature.mentions symbol.signatures +
    (symbol.members.map Symbol.Member.mentions).sum

namespace Assembly

variable {n : ℕ} {α β : Type}

/-! ### What an attempt meets -/

namespace Attempt

/-- **An attempt meets at most so many** classes and interfaces. -/
def MeetsAtMost (attempt : Attempt n α) (bound : ℕ) : Prop := attempt.notes.met.length ≤ bound

namespace MeetsAtMost

variable {attempt : Attempt n α} {bound bound' : ℕ}

theorem of_nil (h : attempt.notes.met = []) (bound : ℕ) : attempt.MeetsAtMost bound := by
  rw [MeetsAtMost, h]
  exact Nat.zero_le bound

theorem mono (h : attempt.MeetsAtMost bound) (hle : bound ≤ bound') : attempt.MeetsAtMost bound' :=
  Nat.le_trans h hle

/-- **One attempt after the other** meets no more than both. -/
theorem bind {next : α → Attempt n β} (h : attempt.MeetsAtMost bound)
    (hnext : ∀ value, (next value).MeetsAtMost bound') :
    (attempt >>= next).MeetsAtMost (bound + bound') := by
  change (attempt.andThen next).MeetsAtMost _
  rw [andThen]
  split
  · next value _ =>
    change (attempt.notes.met ++ (next value).notes.met).length ≤ _
    rw [List.length_append]
    exact Nat.add_le_add h (hnext value)
  · exact h.mono (Nat.le_add_right _ _)

theorem map {make : α → β} (h : attempt.MeetsAtMost bound) :
    (attempt >>= fun value => pure (make value)).MeetsAtMost bound :=
  h.bind fun _ => of_nil rfl 0

theorem recover (h : attempt.MeetsAtMost bound) (what : String) :
    (attempt.recover what).MeetsAtMost bound := by
  rw [Attempt.recover]
  split
  · exact h
  · change (attempt.notes.met ++ []).length ≤ _
    rwa [List.append_nil]
  · exact h

theorem foldlM {γ : Type} {step : α → γ → Attempt n α} {bound : γ → ℕ}
    (hstep : ∀ value item, (step value item).MeetsAtMost (bound item)) (items : List γ)
    (value : α) : (items.foldlM step value).MeetsAtMost (items.map bound).sum := by
  induction items generalizing value with
  | nil => exact of_nil rfl _
  | cons item items ih =>
    rw [List.foldlM_cons, List.map_cons, List.sum_cons]
    exact (hstep value item).bind fun next => ih next

end MeetsAtMost

end Attempt

open Attempt (MeetsAtMost)

theorem meets_overloads {kind owned : String} {build : ℕ → Symbol.Signature → Attempt n α}
    (hbuild : ∀ number signature, (build number signature).MeetsAtMost signature.types.length)
    (number : ℕ) (signatures : List Symbol.Signature) :
    (overloads kind owned build number signatures).MeetsAtMost
      (Symbol.Signature.mentions signatures) := by
  induction signatures generalizing number with
  | nil => exact .of_nil rfl _
  | cons signature signatures ih =>
    rw [Symbol.Signature.mentions, List.map_cons, List.sum_cons]
    exact ((hbuild number signature).recover _).bind fun _ => (ih (number + 1)).map

namespace Context

open Decl (TypeDecl)

variable {context : Context} {state next : State context.table.size} {ref : context.Ref}
  {outcome : Except Failure TypeDecl}

theorem meets_resolve (type : ForeignType) : (context.resolve type).MeetsAtMost 1 := by
  rw [resolve]
  split
  all_goals first | exact .of_nil rfl 1 | exact Nat.le_refl 1

theorem meets_resolveDeclared (type? : Option ForeignType) :
    (context.resolveDeclared type?).MeetsAtMost 1 := by
  cases type? with
  | none => exact .of_nil rfl 1
  | some type => exact meets_resolve type

theorem meets_params (params : List Symbol.Param) :
    (context.params params).MeetsAtMost params.length := by
  induction params with
  | nil => exact .of_nil rfl _
  | cons param params ih =>
    rw [List.length_cons, Nat.add_comm]
    exact (meets_resolve param.type).bind fun _ => ih.map

theorem length_types (signature : Symbol.Signature) :
    signature.types.length = signature.params.length + 1 := by
  rw [Symbol.Signature.types, List.length_append, List.length_map, List.length_singleton]

theorem meets_signature (name : String) (owner : Option Ident) (number : ℕ)
    (signature : Symbol.Signature) :
    (context.signature name owner number signature).MeetsAtMost signature.types.length := by
  rw [length_types]
  exact (meets_params signature.params).bind fun _ => (meets_resolve signature.returns).map

theorem meets_global (symbol : Symbol) : (context.global symbol).MeetsAtMost 1 := by
  rw [Context.global]
  split
  · exact .of_nil rfl 1
  · exact (meets_resolveDeclared symbol.type).bind fun _ => MeetsAtMost.of_nil rfl 0

theorem meets_function (symbol : Symbol) :
    (context.function symbol).MeetsAtMost (Symbol.Signature.mentions symbol.signatures) := by
  rw [Context.function]
  split
  · exact .of_nil rfl _
  · exact (meets_overloads (meets_signature _ _) 0 _).bind fun _ => MeetsAtMost.of_nil rfl 0

theorem meets_addMember (owner : Symbol) (parent : Option TypeDecl) (built : Members)
    (member : Symbol.Member) :
    (context.addMember owner parent built member).MeetsAtMost member.mentions := by
  have hsignatures : Symbol.Signature.mentions member.signatures ≤ member.mentions :=
    Nat.le_add_left _ _
  -- constructors, a field, methods, and a member of another kind
  rw [addMember]
  split
  · refine (MeetsAtMost.map ?_).mono hsignatures
    rw [constructors]
    split
    · exact .of_nil rfl _
    · refine meets_overloads (fun _ signature => ?_) 0 _
      rw [length_types]
      exact ((meets_params signature.params).map).mono (Nat.le_add_right _ _)
  · refine (MeetsAtMost.map ?_).mono (Nat.le_add_right 1 _)
    rw [field]
    split
    · exact .of_nil rfl 1
    · split
      · exact .of_nil rfl 1
      · exact (meets_resolveDeclared member.type).map.recover _
  · refine (MeetsAtMost.map ?_).mono hsignatures
    rw [methods]
    split
    · exact .of_nil rfl _
    · exact meets_overloads (meets_signature _ _) 0 _
  · exact .of_nil rfl _

/-- **A type meets no more than its symbol mentions.** -/
theorem meets_typeOn (symbol : Symbol) (parent : Option TypeDecl) :
    (context.typeOn symbol parent).MeetsAtMost symbol.mentions :=
  (MeetsAtMost.foldlM (meets_addMember symbol parent) symbol.members {}).map.mono
    (Nat.le_add_left _ _)

/-! ### The demand of a state -/

/-- What a symbol can still add to the queue: nothing, if its name is known. -/
def openMentions (context : Context) (memo : Std.TreeMap String Progress) (ref : context.Ref) : ℕ :=
  if (context.symbol ref).name ∈ memo then 0 else (context.symbol ref).mentions

/-- **The demand of a state**: how many symbols wait, and how many can still be made to wait. -/
def demand (context : Context) (state : State context.table.size) : ℕ :=
  state.pending.length + total (List.ofFn (context.openMentions state.memo))

theorem openMentions_le {memo memo' : Std.TreeMap String Progress}
    (hmono : ∀ name ∈ memo, name ∈ memo') (ref : context.Ref) :
    context.openMentions memo' ref ≤ context.openMentions memo ref := by
  rw [openMentions, openMentions]
  split
  · exact Nat.zero_le _
  · next hnot => rw [if_neg fun hmem => hnot (hmono _ hmem)]

/-- As more names become known, and no more wait, the demand does not rise. -/
theorem demand_le_of_mono (hmono : ∀ name ∈ state.memo, name ∈ next.memo)
    (hpending : next.pending.length ≤ state.pending.length) :
    context.demand next ≤ context.demand state :=
  Nat.add_le_add hpending (total_ofFn_le (openMentions_le hmono))

/-- **To ask for a new name** takes what its symbol mentions out of the demand. -/
theorem demand_opening (hnew : state.memo[(context.symbol ref).name]? = none) :
    context.demand (state.opening (context.symbol ref).name ref) + (context.symbol ref).mentions ≤
      context.demand state := by
  have hnot : (context.symbol ref).name ∉ state.memo := by
    rw [Std.TreeMap.mem_iff_isSome_getElem?, hnew]
    exact Bool.false_ne_true
  have hmem : (context.symbol ref).name ∈ (state.opening (context.symbol ref).name ref).memo :=
    Std.TreeMap.mem_insert_self
  rw [demand, demand, Nat.add_assoc]
  refine Nat.add_le_add (Nat.le_refl _) (total_ofFn_add_le (i := ref) (openMentions_le ?_) ?_)
  · exact fun _ hknown => Std.TreeMap.mem_insert.mpr (Or.inr hknown)
  · rw [openMentions, openMentions, if_pos hmem, if_neg hnot, Nat.zero_add]

theorem demand_take (state : State context.table.size) {notes : Notes context.table.size}
    {bound : ℕ} (h : notes.met.length ≤ bound) :
    context.demand (state.take notes) ≤ context.demand state + bound := by
  have hpending : (state.take notes).pending.length = state.pending.length + notes.met.length :=
    List.length_append
  rw [demand, demand, State.memo_take, hpending]
  omega

theorem demand_mark_le (state : State context.table.size) (name : String) (progress : Progress) :
    context.demand (state.mark name progress) ≤ context.demand state :=
  demand_le_of_mono (fun _ hknown => Std.TreeMap.mem_insert.mpr (Or.inr hknown)) (Nat.le_refl _)

/-- **A type that is built** makes no more wait than was taken out for its symbol. -/
theorem demand_enter_le {symbol : Symbol} {parent : Option TypeDecl} {type : TypeDecl} {left : ℕ}
    (h : context.demand state + symbol.mentions ≤ left) :
    context.demand ((state.take (context.typeOn symbol parent).notes).enter symbol.name type) ≤
      left :=
  calc context.demand ((state.take (context.typeOn symbol parent).notes).enter symbol.name type)
      ≤ context.demand (state.take (context.typeOn symbol parent).notes) :=
        demand_le_of_mono (fun _ hknown => Std.TreeMap.mem_insert.mpr (Or.inr hknown))
          (Nat.le_refl _)
    _ ≤ context.demand state + symbol.mentions := demand_take state (meets_typeOn symbol parent)
    _ ≤ left := h

/-- **No request raises the demand.** -/
theorem Builds.demand_le (h : context.Builds state ref outcome next) :
    context.demand next ≤ context.demand state := by
  induction h with
  | known => exact Nat.le_refl _
  | denied => exact demand_mark_le _ _ _
  | unfit hnew =>
    exact (demand_mark_le _ _ _).trans ((Nat.le_add_right _ _).trans (demand_opening hnew))
  | orphan hnew _ _ _ ih =>
    exact (demand_mark_le _ _ _).trans
      (ih.trans ((Nat.le_add_right _ _).trans (demand_opening hnew)))
  | top hnew => exact demand_enter_le (demand_opening hnew)
  | child hnew _ _ _ _ ih =>
    exact demand_enter_le ((Nat.add_le_add_right ih _).trans (demand_opening hnew))

/-- **The turn of a symbol** raises the demand by no more than the symbol mentions. -/
theorem demand_buildSymbol_le (hindexed : context.Indexed) (state : State context.table.size)
    (ref : context.Ref) : context.demand (context.buildSymbol state ref).2 ≤
      context.demand state + (context.symbol ref).mentions := by
  by_cases hclass : (context.symbol ref).kind.isClassLike = true
  · rw [buildSymbol_of_isClassLike hclass]
    split
    · exact Nat.le_add_right _ _
    · exact (context.builds hindexed state ref).demand_le.trans (Nat.le_add_right _ _)
  · rw [buildSymbol]
    cases hkind : (context.symbol ref).kind with
    | global =>
      refine demand_take state ((meets_global _).mono ?_)
      rw [Symbol.mentions]
      omega
    | function =>
      refine demand_take state ((meets_function _).mono ?_)
      rw [Symbol.mentions]
      omega
    | classType | interfaceType => exact absurd (hkind ▸ rfl) hclass

/-- **The turns of some symbols** raise the demand by no more than these mention. -/
theorem demand_buildListed_le (hindexed : context.Indexed) (state : State context.table.size)
    (refs : List context.Ref) : context.demand (context.buildListed state refs).2 ≤
      context.demand state + (refs.map fun ref => (context.symbol ref).mentions).sum := by
  induction refs generalizing state with
  | nil => exact Nat.le_refl _
  | cons ref refs ih =>
    have hstep := demand_buildSymbol_le hindexed state ref
    rw [buildListed, List.map_cons, List.sum_cons, ← Nat.add_assoc]
    rcases hresult : context.buildSymbol state ref with ⟨outcome, next⟩
    rcases habsorb : absorb (context.symbol ref).name outcome with ⟨failure | decls, report⟩
    · simp only [habsorb]
      rw [hresult] at hstep
      exact hstep.trans (Nat.le_add_right _ _)
    · simp only [habsorb]
      rw [hresult] at hstep
      exact (ih (next.tell report)).trans (Nat.add_le_add_right hstep _)

end Context

end Assembly

end Bindery
