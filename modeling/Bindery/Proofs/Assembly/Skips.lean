import Bindery.Proofs.Assembly.Told
import Bindery.Proofs.Assembly.Turns

/-!
# Every diagnostic says what is skipped

To resolve a type is **silent** (`Bindery.Assembly.Attempt.Silent`), and so is everything that is
put together of resolved types. Only where something is left out there is a diagnostic, which
**skips** it (`Bindery.Assembly.Attempt.Skips`). So no diagnostic of a module is about a cycle
(`Bindery.Assembly.Context.Assembles.skips`).
-/

namespace Bindery.Assembly

variable {n : ℕ} {α β : Type} {p : Diagnostic → Prop}

/-! ### What an attempt tells -/

namespace Attempt

/-- **An attempt only tells such diagnostics.** -/
def Tells (p : Diagnostic → Prop) (attempt : Attempt n α) : Prop :=
  ∀ diagnostic ∈ attempt.notes.report.diagnostics, p diagnostic

/-- There are no diagnostics of an attempt. -/
abbrev Silent (attempt : Attempt n α) : Prop := attempt.Tells fun _ => False

/-- An attempt only tells what is skipped. -/
abbrev Skips (attempt : Attempt n α) : Prop := attempt.Tells (·.kind = .skipped)

theorem Tells.of_nil {attempt : Attempt n α} (h : attempt.notes.report.diagnostics = []) :
    attempt.Tells p :=
  fun _ hmem => absurd (h ▸ hmem) List.not_mem_nil

theorem Silent.diagnostics_eq {attempt : Attempt n α} (h : attempt.Silent) :
    attempt.notes.report.diagnostics = [] :=
  List.eq_nil_iff_forall_not_mem.mpr h

theorem Silent.tells {attempt : Attempt n α} (h : attempt.Silent) : attempt.Tells p :=
  .of_nil h.diagnostics_eq

theorem Tells.bind {attempt : Attempt n α} {next : α → Attempt n β} (h : attempt.Tells p)
    (hnext : ∀ value, (next value).Tells p) : (attempt >>= next).Tells p := by
  change (attempt.andThen next).Tells p
  rw [andThen]
  cases attempt.outcome with
  | error failure => exact h
  | ok value =>
    intro diagnostic hmem
    exact (List.mem_append.mp hmem).elim (h diagnostic) (hnext value diagnostic)

theorem Skips.recover {attempt : Attempt n α} (h : attempt.Skips) (what : String) :
    (attempt.recover what).Skips := by
  rw [Attempt.recover]
  split
  · exact h
  · intro diagnostic hmem
    rcases List.mem_append.mp hmem with hmem | hmem
    · exact h diagnostic hmem
    · rw [List.mem_singleton.mp hmem]
      rfl
  · exact h

theorem Tells.foldlM {γ : Type} {step : α → γ → Attempt n α}
    (hstep : ∀ value item, (step value item).Tells p) (items : List γ) (value : α) :
    (items.foldlM step value).Tells p := by
  induction items generalizing value with
  | nil => exact .of_nil rfl
  | cons item items ih =>
    rw [List.foldlM_cons]
    exact (hstep value item).bind fun next => ih next

end Attempt

open Attempt (Tells)

theorem skips_overloads {kind owner : String} {build : ℕ → Symbol.Signature → Attempt n α}
    (hbuild : ∀ number signature, (build number signature).Silent) (number : ℕ)
    (signatures : List Symbol.Signature) :
    (overloads kind owner build number signatures).Skips := by
  induction signatures generalizing number with
  | nil => exact .of_nil rfl
  | cons signature signatures ih =>
    have hbuilt : (build number signature).Skips := (hbuild number signature).tells
    exact (hbuilt.recover _).bind fun _ => (ih (number + 1)).bind fun _ => .of_nil rfl

theorem skips_absorb {γ : Type} (name : String) (outcome : Except Failure γ) :
    ∀ diagnostic ∈ (absorb name outcome).2.diagnostics, diagnostic.kind = .skipped := by
  cases outcome with
  | ok value => exact fun _ hmem => absurd hmem List.not_mem_nil
  | error failure =>
    rw [absorb]
    split
    · intro diagnostic hmem
      rw [List.mem_singleton.mp hmem]
      rfl
    · exact fun _ hmem => absurd hmem List.not_mem_nil

namespace Context

variable {context : Context}

/-! ### What is silent -/

theorem silent_resolve (type : ForeignType) : (context.resolve type).Silent := by
  rw [resolve]
  split <;> exact .of_nil rfl

theorem silent_resolveDeclared (type? : Option ForeignType) :
    (context.resolveDeclared type?).Silent := by
  cases type? with
  | none => exact .of_nil rfl
  | some type => exact silent_resolve type

theorem silent_params (params : List Symbol.Param) : (context.params params).Silent := by
  induction params with
  | nil => exact .of_nil rfl
  | cons param params ih =>
    exact (silent_resolve param.type).bind fun _ => ih.bind fun _ => .of_nil rfl

theorem silent_signature (name : String) (owner : Option Ident) (overload : ℕ)
    (signature : Symbol.Signature) : (context.signature name owner overload signature).Silent :=
  (silent_params signature.params).bind fun _ =>
    (silent_resolve signature.returns).bind fun _ => .of_nil rfl

theorem silent_global (symbol : Symbol) : (context.global symbol).Silent := by
  rw [Context.global]
  split
  · exact .of_nil rfl
  · exact (silent_resolveDeclared symbol.type).bind fun _ =>
      Tells.bind (.of_nil rfl) fun _ => .of_nil rfl

/-! ### What skips something -/

theorem skips_function (symbol : Symbol) : (context.function symbol).Skips := by
  rw [Context.function]
  split
  · exact .of_nil rfl
  · exact (skips_overloads (silent_signature _ _) 0 _).bind fun _ =>
      Tells.bind (.of_nil rfl) fun _ => .of_nil rfl

theorem skips_tell (message : String) :
    (Attempt.tell (.skipped message) : context.Attempt Unit).Skips := by
  intro diagnostic hmem
  rw [List.mem_singleton.mp hmem]
  rfl

theorem skips_addMember (owner : Symbol) (parent : Option Decl.TypeDecl) (built : Members)
    (member : Symbol.Member) : (context.addMember owner parent built member).Skips := by
  -- constructors, a field, methods, and a member of another kind
  rw [addMember]
  split
  · refine Tells.bind ?_ fun _ => .of_nil rfl
    rw [constructors]
    split
    · exact Tells.bind (.of_nil rfl) fun _ => .of_nil rfl
    · exact skips_overloads (fun _ signature => (silent_params signature.params).bind fun _ =>
        .of_nil rfl) 0 _
  · refine Tells.bind ?_ fun _ => .of_nil rfl
    rw [field]
    split
    · exact (skips_tell _).bind fun _ => .of_nil rfl
    · split
      · exact .of_nil rfl
      · exact Attempt.Skips.recover ((silent_resolveDeclared member.type).tells.bind fun _ =>
          .of_nil rfl) _
  · refine Tells.bind ?_ fun _ => .of_nil rfl
    rw [methods]
    split
    · exact (skips_tell _).bind fun _ => .of_nil rfl
    · exact skips_overloads (silent_signature _ _) 0 _
  · exact (skips_tell _).bind fun _ => .of_nil rfl

theorem skips_typeOn (symbol : Symbol) (parent : Option Decl.TypeDecl) :
    (context.typeOn symbol parent).Skips :=
  (Tells.foldlM (fun built member => skips_addMember symbol parent built member) _ _).bind
    fun _ => .of_nil rfl

theorem skips_aside (symbol : Symbol) : (context.aside symbol).Skips := by
  rw [aside]
  split
  · exact (silent_global symbol).tells.bind fun _ => .of_nil rfl
  · exact (skips_function symbol).bind fun _ => .of_nil rfl
  · exact (skips_tell _).bind fun _ => .of_nil rfl
  · exact (skips_tell _).bind fun _ => .of_nil rfl

/-! ### Modules -/

theorem skips_omissions (symbol : Symbol) :
    ∀ diagnostic ∈ context.omissions symbol, diagnostic.kind = .skipped := by
  intro diagnostic hmem
  exact (List.mem_append.mp hmem).elim (skips_aside symbol diagnostic)
    (skips_absorb _ _ diagnostic)

theorem skips_membersTold (type : Decl.TypeDecl) :
    ∀ diagnostic ∈ context.membersTold type, diagnostic.kind = .skipped := by
  rw [membersTold]
  cases context.original? type with
  | none => exact fun _ hmem => absurd hmem List.not_mem_nil
  | some symbol => exact skips_typeOn symbol type.parent?

theorem Turn.skips {state next : State context.table.size} {ref : context.Ref}
    {decls : List Decl} (h : context.Turn state ref decls next) (hindexed : context.Indexed)
    (hstate : ∀ diagnostic ∈ state.report.diagnostics, diagnostic.kind = .skipped) :
    ∀ diagnostic ∈ next.report.diagnostics, diagnostic.kind = .skipped := by
  intro diagnostic hmem
  cases h with
  | aside _ _ _ htold =>
    rw [htold] at hmem
    exact (List.mem_append.mp hmem).elim (hstate diagnostic) (skips_omissions _ diagnostic)
  | request hfirst hbuilds =>
    obtain ⟨types, -, htold⟩ := hbuilds.exists_told hindexed hfirst
    rcases List.mem_append.mp hmem with hmem | hmem
    · rw [htold] at hmem
      rcases List.mem_append.mp hmem with hmem | hmem
      · exact hstate diagnostic hmem
      · obtain ⟨type, -, hmem⟩ := List.mem_flatMap.mp hmem
        exact skips_membersTold type diagnostic hmem
    · exact skips_absorb _ _ diagnostic hmem

theorem Turns.skips {state last : State context.table.size} {refs : List context.Ref}
    {decls : List Decl} (h : context.Turns state refs decls last) (hindexed : context.Indexed)
    (hstate : ∀ diagnostic ∈ state.report.diagnostics, diagnostic.kind = .skipped) :
    ∀ diagnostic ∈ last.report.diagnostics, diagnostic.kind = .skipped := by
  induction h with
  | nil => exact hstate
  | cons _ hturn _ ih => exact ih (hturn.skips hindexed hstate)

/-- **No diagnostic of a module is about a cycle.** -/
theorem Assembles.skips {assembled : Assembled} {values : List Decl}
    {last : State context.table.size} (h : context.Assembles assembled values last)
    (hindexed : context.Indexed) :
    ∀ diagnostic ∈ assembled.report.diagnostics, diagnostic.kind = .skipped := by
  rw [h.diagnostics_eq]
  exact h.turns.skips hindexed fun _ hmem => absurd hmem List.not_mem_nil

end Context

end Bindery.Assembly
