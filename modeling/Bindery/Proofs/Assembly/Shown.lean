import Bindery.Proofs.Assembly.Body

/-!
# What an attempt shows

Apart from the symbols that it meets, an attempt shows its outcome and its diagnostics
(`Bindery.Assembly.Attempt.shown`). What an attempt put together of others shows is put together
of what they show, so attempts in two different symbol tables can be compared by equations.

To build something from a symbol, a table is only asked which names mean types. Where two tables
**resolve alike** (`Bindery.Assembly.Context.ResolveAlike`), whatever is built from the same
symbol shows the same in both of them (`Bindery.Assembly.Context.ResolveAlike.shown_typeOn`).
-/

namespace Bindery.Assembly

open Decl (Constructor Field Parameter TypeDecl TypeRef)

variable {n m : ℕ} {α β : Type}

/-! ### Outcomes and diagnostics -/

/-- **What an attempt shows**: its outcome, and its diagnostics. -/
abbrev Shown (α : Type) : Type := Except Failure α × List Diagnostic

namespace Shown

/-- What is shown by two attempts, one after the other. -/
def andThen (shown : Shown α) (next : α → Shown β) : Shown β :=
  match shown.1 with
  | .ok value => ((next value).1, shown.2 ++ (next value).2)
  | .error failure => (.error failure, shown.2)

@[simp] theorem andThen_ok (value : α) (told : List Diagnostic) (next : α → Shown β) :
    andThen (.ok value, told) next = ((next value).1, told ++ (next value).2) := rfl

@[simp] theorem andThen_error (failure : Failure) (told : List Diagnostic)
    (next : α → Shown β) : andThen (.error failure, told) next = (.error failure, told) := rfl

theorem andThen_assoc {γ : Type} (shown : Shown α) (next : α → Shown β) (last : β → Shown γ) :
    (shown.andThen next).andThen last = shown.andThen fun value => (next value).andThen last := by
  obtain ⟨failure | value, told⟩ := shown
  · rfl
  · rw [andThen_ok, andThen_ok]
    obtain ⟨failure | next, more⟩ := next value
    · rfl
    · simp

/-- What is left of a member, and the diagnostic if it is left out. -/
def recover (what : String) (shown : Shown α) : Shown (Option α) :=
  match shown.1 with
  | .ok value => (.ok (some value), shown.2)
  | .error (.unrepresentable type) =>
    (.ok none, shown.2 ++
      [.skipped ("skipping " ++ what ++ ": " ++ (Failure.unrepresentable type).message)])
  | .error failure => (.error failure, shown.2)

end Shown

namespace Attempt

/-- What an attempt shows, apart from the symbols that it meets. -/
def shown (attempt : Attempt n α) : Shown α := (attempt.outcome, attempt.notes.report.diagnostics)

@[simp] theorem shown_pure (value : α) : (pure value : Attempt n α).shown = (.ok value, []) := rfl

@[simp] theorem shown_fail (failure : Failure) :
    (fail failure : Attempt n α).shown = (.error failure, []) := rfl

@[simp] theorem shown_tell (report : Report) :
    (tell report : Attempt n Unit).shown = (.ok (), report.diagnostics) := rfl

@[simp] theorem shown_meet (ref : Fin n) : (meet ref).shown = (.ok (), []) := rfl

@[simp] theorem shown_bind (attempt : Attempt n α) (next : α → Attempt n β) :
    (attempt >>= next).shown = attempt.shown.andThen fun value => (next value).shown := by
  obtain ⟨outcome, notes⟩ := attempt
  cases outcome <;> rfl

theorem shown_map (attempt : Attempt n α) (f : α → β) :
    (attempt >>= fun value => pure (f value)).shown =
      (attempt.outcome.map f, attempt.notes.report.diagnostics) := by
  rw [shown_bind, shown]
  cases attempt.outcome with
  | error failure => rfl
  | ok value => exact Prod.ext rfl (List.append_nil _)

@[simp] theorem shown_recover (what : String) (attempt : Attempt n α) :
    (attempt.recover what).shown = attempt.shown.recover what := by
  obtain ⟨outcome, notes⟩ := attempt
  rcases outcome with failure | value
  · cases failure <;> rfl
  · rfl

end Attempt

/-- Overloads show the same if each of them does. -/
theorem shown_overloads_congr {kind owner : String} {build : ℕ → Symbol.Signature → Attempt n α}
    {build' : ℕ → Symbol.Signature → Attempt m α}
    (hbuild : ∀ number signature, (build number signature).shown = (build' number signature).shown)
    (number : ℕ) (signatures : List Symbol.Signature) :
    (overloads kind owner build number signatures).shown =
      (overloads kind owner build' number signatures).shown := by
  induction signatures generalizing number with
  | nil => rfl
  | cons signature signatures ih =>
    simp only [overloads, Attempt.shown_bind, Attempt.shown_recover, hbuild, ih, Attempt.shown_pure]

namespace Context

variable {context other : Context}

/-! ### Tables that resolve alike -/

/-- **Two tables resolve alike**: the same names mean types in both of them, and the configuration
is the same. -/
structure ResolveAlike (context other : Context) : Prop where
  indexed : context.Indexed
  indexed' : other.Indexed
  config_eq : other.config = context.config
  isSome_eq : ∀ name,
    (other.table.lookupType? name).isSome = (context.table.lookupType? name).isSome

/-- The type of a name, if there is one, is referred to by that name. -/
theorem shown_resolve_named (hindexed : context.Indexed) (name : String) :
    (context.resolve (.named name)).shown =
      if (context.table.lookupType? name).isSome then (.ok (.declared (context.ident name)), [])
      else (.error (.unrepresentable name), []) := by
  rw [resolve, SymbolTable.classify]
  cases hlookup : context.table.lookupType? name with
  | none => rfl
  | some ref => simp [hindexed.name_eq hlookup]

namespace ResolveAlike

variable (h : ResolveAlike context other)

include h

theorem ident_eq (foreign : String) : other.ident foreign = context.ident foreign := by
  rw [ident, ident, h.config_eq]

theorem denies_eq (symbol : Symbol) : other.denies symbol = context.denies symbol := by
  rw [denies, denies, h.config_eq]

theorem shown_resolve (type : ForeignType) :
    (other.resolve type).shown = (context.resolve type).shown := by
  cases type with
  | named name =>
    rw [shown_resolve_named h.indexed, shown_resolve_named h.indexed', h.isSome_eq, h.ident_eq]
  | _ => rfl

theorem shown_resolveDeclared (type? : Option ForeignType) :
    (other.resolveDeclared type?).shown = (context.resolveDeclared type?).shown := by
  cases type? with
  | none => rfl
  | some type => exact h.shown_resolve type

theorem shown_params (params : List Symbol.Param) :
    (other.params params).shown = (context.params params).shown := by
  induction params with
  | nil => rfl
  | cons param params ih =>
    simp only [Context.params, Attempt.shown_bind, Attempt.shown_pure, h.shown_resolve, ih,
      h.ident_eq]

theorem shown_signature (name : String) (owner : Option Ident) (overload : ℕ)
    (signature : Symbol.Signature) :
    (other.signature name owner overload signature).shown =
      (context.signature name owner overload signature).shown := by
  simp only [Context.signature, Attempt.shown_bind, Attempt.shown_pure, h.shown_params,
    h.shown_resolve, h.ident_eq]

theorem shown_global (symbol : Symbol) :
    (other.global symbol).shown = (context.global symbol).shown := by
  rw [Context.global, Context.global, h.denies_eq]
  split
  · rfl
  · simp only [Attempt.shown_bind, Attempt.shown_tell, Attempt.shown_pure, h.shown_resolveDeclared,
      h.ident_eq]

theorem shown_function (symbol : Symbol) :
    (other.function symbol).shown = (context.function symbol).shown := by
  rw [Context.function, Context.function, h.denies_eq]
  split
  · rfl
  · simp only [Attempt.shown_bind, Attempt.shown_tell, Attempt.shown_pure,
      shown_overloads_congr (h.shown_signature symbol.name none)]

theorem shown_constructors (owner : Symbol) (member : Symbol.Member) :
    (other.constructors owner member).shown = (context.constructors owner member).shown := by
  rw [constructors, constructors]
  split
  · rfl
  · refine shown_overloads_congr (fun number signature => ?_) 0 member.signatures
    simp only [Attempt.shown_bind, Attempt.shown_pure, h.shown_params, h.ident_eq]

theorem shown_field (owner : Symbol) (declared : String → Bool) (member : Symbol.Member) :
    (other.field owner declared member).shown = (context.field owner declared member).shown := by
  rw [field, field, h.config_eq]
  split
  · rfl
  · split
    · rfl
    · simp only [Attempt.shown_recover, Attempt.shown_bind, Attempt.shown_pure,
        h.shown_resolveDeclared, h.ident_eq]

theorem shown_methods (owner : Symbol) (member : Symbol.Member) :
    (other.methods owner member).shown = (context.methods owner member).shown := by
  rw [methods, methods, h.config_eq]
  split
  · rfl
  · rw [h.ident_eq]
    exact shown_overloads_congr (h.shown_signature member.name _) 0 member.signatures

theorem shown_addMember (owner : Symbol) (parent : Option TypeDecl) (built : Members)
    (member : Symbol.Member) :
    (other.addMember owner parent built member).shown =
      (context.addMember owner parent built member).shown := by
  rw [addMember, addMember]
  split <;>
    simp only [Attempt.shown_bind, Attempt.shown_pure, h.shown_constructors, h.shown_field,
      h.shown_methods, Attempt.shown_tell]

/-- **A type shows the same** on top of the same parent, whatever else the tables hold. -/
theorem shown_typeOn (symbol : Symbol) (parent : Option TypeDecl) :
    (other.typeOn symbol parent).shown = (context.typeOn symbol parent).shown := by
  have hfold : ∀ (members : List Symbol.Member) (built : Members),
      (members.foldlM (other.addMember symbol parent) built).shown =
        (members.foldlM (context.addMember symbol parent) built).shown := by
    intro members
    induction members with
    | nil => exact fun built => rfl
    | cons member members ih =>
      intro built
      simp only [List.foldlM_cons, Attempt.shown_bind, h.shown_addMember, ih]
  simp only [typeOn, Attempt.shown_bind, Attempt.shown_pure, hfold, h.ident_eq]

end ResolveAlike

end Context

end Bindery.Assembly
