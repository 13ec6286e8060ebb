import Bindery.Assembly.Body
import Bindery.Proofs.Assembly.Attempt
import Bindery.Proofs.Assembly.Lookup
import Bindery.Proofs.Decl.Dependencies

/-!
# What the members of a type run into

Every attempt to build something from a symbol meets only first types of their names. What
it builds refers to a type only if it met it (`Bindery.Assembly.Context.Names`), with the
exception of a type that stands on a parent: this one also refers to its parent, and to what
the constructors that it takes over refer to (`Bindery.Assembly.Context.runs_typeOn`).

Types without a rendering are recovered from at each member, so to build a type on top of its
parent never fails (`Bindery.Assembly.Context.exists_typeOn`).
-/

namespace Bindery.Assembly.Context

open Decl (Constructor Field Key Parameter TypeBody TypeDecl TypeRef paramKeys)
open Attempt (Runs never)

variable {context : Context}

/-- **A key names a type that was seen**. -/
def Names (context : Context) (seen : context.Ref → Prop) (key : Key) : Prop :=
  ∃ ref, seen ref ∧ key = .type (context.symbol ref).name

section Specs

variable (h : context.Indexed)

include h

/-! ### Types, signatures and variables -/

theorem runs_resolve (type : ForeignType) :
    (context.resolve type).Runs context.IsFirst Failure.IsUnrepresentable
      fun seen (type : TypeRef) => ∀ key ∈ type.key?, context.Names seen key := by
  rw [resolve]
  split
  · exact .done fun _ key hkey => nomatch hkey
  · exact .done fun _ key hkey => nomatch hkey
  · exact .done fun _ key hkey => nomatch hkey
  · exact .done fun _ key hkey => nomatch hkey
  · next ref hclass =>
    obtain ⟨name, -, hlookup⟩ := SymbolTable.classify_eq_classLike_iff.mp hclass
    refine (Runs.meet (h.isFirst hlookup)).bind fun _ => .done ?_
    rintro seen hseen key ⟨⟩
    exact ⟨ref, hseen, rfl⟩
  · exact .fail ⟨_, rfl⟩

theorem runs_resolveDeclared (type? : Option ForeignType) :
    (context.resolveDeclared type?).Runs context.IsFirst Failure.IsUnrepresentable
      fun seen (type : TypeRef) => ∀ key ∈ type.key?, context.Names seen key := by
  cases type? with
  | some type => exact runs_resolve h type
  | none => exact .fail ⟨_, rfl⟩

theorem runs_params (params : List Symbol.Param) :
    (context.params params).Runs context.IsFirst Failure.IsUnrepresentable
      fun seen (params : List Parameter) => ∀ key ∈ paramKeys params, context.Names seen key := by
  induction params with
  | nil => exact .done fun _ key hkey => absurd hkey List.not_mem_nil
  | cons param params ih =>
    rw [Context.params]
    refine (runs_resolve h param.type).bind fun type => ih.bind fun rest => .done ?_
    intro seen hrest htype key hkey
    obtain ⟨parameter, hmem, hkey⟩ := List.mem_filterMap.mp hkey
    rcases List.mem_cons.mp hmem with rfl | hmem
    · exact htype key hkey
    · exact hrest key (List.mem_filterMap.mpr ⟨parameter, hmem, hkey⟩)

theorem runs_signature (name : String) (owner : Option Ident) (overload : ℕ)
    (signature : Symbol.Signature) :
    (context.signature name owner overload signature).Runs context.IsFirst
      Failure.IsUnrepresentable fun seen (signature : Decl.Signature) =>
        ∀ key ∈ signature.references, context.Names seen key := by
  refine (runs_params h signature.params).bind fun params =>
    (runs_resolve h signature.returns).bind fun returns => .done ?_
  intro seen hreturns hparams key hkey
  rcases List.mem_append.mp hkey with hkey | hkey
  · exact hparams key hkey
  · exact hreturns key (Option.mem_toList.mp hkey)

theorem runs_global (symbol : Symbol) :
    (context.global symbol).Runs context.IsFirst (fun failure => failure.isRecoverable = true)
      fun seen (global : Decl.Global) => ∀ key ∈ global.type.key?, context.Names seen key := by
  rw [Context.global]
  split
  · exact .fail rfl
  · refine Runs.bind (runs_resolveDeclared h symbol.type |>.mono ?_ fun _ _ => id) fun type =>
      (Runs.tell _).bind fun _ => .done fun seen _ htype => htype
    rintro _ ⟨type, rfl⟩
    rfl

theorem runs_function (symbol : Symbol) :
    (context.function symbol).Runs context.IsFirst (fun failure => failure.isRecoverable = true)
      fun seen (signatures : List Decl.Signature) =>
        ∀ signature ∈ signatures, ∀ key ∈ signature.references, context.Names seen key := by
  rw [Context.function]
  split
  · exact .fail rfl
  · exact (runs_overloads (runs_signature h symbol.name none) 0 symbol.signatures).bind
      fun built => (Runs.tell _).bind fun _ => .done fun seen _ hbuilt => hbuilt

/-! ### Members -/

theorem runs_constructors (owner : Symbol) (member : Symbol.Member) :
    (context.constructors owner member).Runs context.IsFirst never
      fun seen (built : List Constructor) =>
        ∀ constructor ∈ built, ∀ key ∈ paramKeys constructor.params, context.Names seen key := by
  rw [constructors]
  split
  · exact (Runs.tell _).bind fun _ => .done fun seen _ constructor hmem =>
      absurd hmem List.not_mem_nil
  · exact runs_overloads (fun _ signature => (runs_params h signature.params).bind
      fun params => .done fun seen hparams => hparams) 0 member.signatures

theorem runs_field (owner : Symbol) (declared : String → Bool) (member : Symbol.Member) :
    (context.field owner declared member).Runs context.IsFirst never
      fun seen (built : Option Field) =>
        ∀ field ∈ built, ∀ key ∈ field.type.key?, context.Names seen key := by
  rw [field]
  split
  · exact (Runs.tell _).bind fun _ => .done fun seen _ field hmem => nomatch hmem
  · split
    · exact .done fun seen field hmem => nomatch hmem
    · exact .recover _ ((runs_resolveDeclared h member.type).bind fun type => .done fun _ => id)

theorem runs_methods (owner : Symbol) (member : Symbol.Member) :
    (context.methods owner member).Runs context.IsFirst never
      fun seen (built : List Decl.Signature) =>
        ∀ signature ∈ built, ∀ key ∈ signature.references, context.Names seen key := by
  rw [methods]
  split
  · exact (Runs.tell _).bind fun _ => .done fun seen _ signature hmem =>
      absurd hmem List.not_mem_nil
  · exact runs_overloads (runs_signature h member.name _) 0 member.signatures

/-- The keys of the types that members refer to. -/
def Members.keys (members : Members) : List Key :=
  members.fields.filterMap (·.type.key?) ++
    members.constructors.flatMap (paramKeys ·.params) ++
    members.methods.flatMap Decl.Signature.references

omit h in
theorem Members.mem_keys_iff {members : Members} {key : Key} : key ∈ members.keys ↔
    (∃ field ∈ members.fields, field.type.key? = some key) ∨
      (∃ constructor ∈ members.constructors, key ∈ paramKeys constructor.params) ∨
      ∃ signature ∈ members.methods, key ∈ signature.references := by
  simp [Members.keys]

theorem runs_addMember (owner : Symbol) (parent : Option TypeDecl) (built : Members)
    (member : Symbol.Member) :
    (context.addMember owner parent built member).Runs context.IsFirst never
      fun seen (more : Members) => (∀ key ∈ built.keys, context.Names seen key) →
        ∀ key ∈ more.keys, context.Names seen key := by
  rw [addMember]
  simp only [Members.mem_keys_iff]
  split
  · refine (runs_constructors h owner member).bind fun more => .done ?_
    rintro seen hmore hbuilt key (hfield | ⟨constructor, hmem, hkey⟩ | hmethod)
    · exact hbuilt key (Or.inl hfield)
    · rcases List.mem_append.mp hmem with hmem | hmem
      · exact hbuilt key (Or.inr (Or.inl ⟨constructor, hmem, hkey⟩))
      · exact hmore constructor hmem key hkey
    · exact hbuilt key (Or.inr (Or.inr hmethod))
  · refine (runs_field h owner _ member).bind fun more => .done ?_
    rintro seen hmore hbuilt key (⟨field, hmem, hkey⟩ | hother)
    · rcases List.mem_append.mp hmem with hmem | hmem
      · exact hbuilt key (Or.inl ⟨field, hmem, hkey⟩)
      · exact hmore field (Option.mem_toList.mp hmem) key hkey
    · exact hbuilt key (Or.inr hother)
  · refine (runs_methods h owner member).bind fun more => .done ?_
    rintro seen hmore hbuilt key (hfield | hconstructor | ⟨signature, hmem, hkey⟩)
    · exact hbuilt key (Or.inl hfield)
    · exact hbuilt key (Or.inr (Or.inl hconstructor))
    · rcases List.mem_append.mp hmem with hmem | hmem
      · exact hbuilt key (Or.inr (Or.inr ⟨signature, hmem, hkey⟩))
      · exact hmore signature hmem key hkey
  · exact (Runs.tell _).bind fun _ => .done fun seen _ hbuilt => hbuilt

end Specs

/-! ### Types -/

theorem mem_keys_allConstructors {ident : Ident} {isAbstract : Bool} {parent : Option TypeDecl}
    {own : List Constructor} {key : Key} {constructor : Constructor}
    (hmem : constructor ∈ allConstructors ident isAbstract parent own)
    (hkey : key ∈ paramKeys constructor.params) :
    (∃ constructor ∈ own, key ∈ paramKeys constructor.params) ∨
      ∃ type ∈ parent, key ∈ type.references := by
  rw [allConstructors] at hmem
  split at hmem
  · exact Or.inl ⟨constructor, hmem, hkey⟩
  · split at hmem
    · rw [List.mem_singleton.mp hmem] at hkey
      exact absurd hkey List.not_mem_nil
    · cases parent with
      | none => exact absurd hmem (by simp)
      | some type =>
        -- a type without constructors of its own takes over those of its parent
        obtain ⟨inherited, hinherited, rfl⟩ := List.mem_map.mp hmem
        exact Or.inr ⟨type, rfl, TypeDecl.mem_references_of_constructor hinherited hkey⟩

theorem body_extending (body : TypeBody) (parent : Option TypeDecl) :
    (TypeDecl.extending body parent).body = body := by
  cases parent <;> rfl

theorem parent?_extending (body : TypeBody) (parent : Option TypeDecl) :
    (TypeDecl.extending body parent).parent? = parent := by
  cases parent <;> rfl

/-- **A type on top of its parent** refers to types that were met, to its parent, or to what
its parent refers to. It bears the name of its symbol. -/
theorem runs_typeOn (h : context.Indexed) (symbol : Symbol) (parent : Option TypeDecl) :
    (context.typeOn symbol parent).Runs context.IsFirst never
      fun seen (type : TypeDecl) => type.ident = context.ident symbol.name ∧
        type.parent? = parent ∧
        ∀ key ∈ type.references, context.Names seen key ∨
          ∃ other ∈ parent, key = other.key ∨ key ∈ other.references := by
  have hmembers := Runs.foldlM (fun built member (_ : member ∈ symbol.members) =>
    runs_addMember h symbol parent built member) {}
  refine hmembers.bind fun built => .done fun seen hbuilt => ⟨?_, parent?_extending _ _, ?_⟩
  · cases parent <;> rfl
  · have hkeys : ∀ key ∈ built.keys, context.Names seen key :=
      hbuilt fun key hkey => absurd hkey List.not_mem_nil
    simp only [Members.mem_keys_iff] at hkeys
    intro key hkey
    -- what a type refers to comes from its parent, its fields, its constructors or its methods
    rw [TypeDecl.references, parent?_extending] at hkey
    simp only [List.mem_append, List.mem_filterMap, List.mem_flatMap] at hkey
    rcases hkey with ((hparent | hfield) | ⟨constructor, hmem, hkey⟩) | hmethod
    · obtain ⟨type, htype, rfl⟩ := Option.map_eq_some_iff.mp (Option.mem_toList.mp hparent)
      exact Or.inr ⟨type, htype, Or.inl rfl⟩
    · refine Or.inl (hkeys key (Or.inl ?_))
      cases parent <;> exact hfield
    · have hall : constructor ∈ allConstructors (context.ident symbol.name)
          (symbol.kind = .interfaceType) parent built.constructors := by
        cases parent <;> exact hmem
      rcases mem_keys_allConstructors hall hkey with hown | ⟨type, htype, hkey⟩
      · exact Or.inl (hkeys key (Or.inr (Or.inl hown)))
      · exact Or.inr ⟨type, htype, Or.inr hkey⟩
    · refine Or.inl (hkeys key (Or.inr (Or.inr ?_)))
      cases parent <;> exact hmethod

section TypeOn

variable {symbol : Symbol} {parent : Option TypeDecl} {type : TypeDecl} (h : context.Indexed)
  (htype : (context.typeOn symbol parent).outcome = .ok type)

include h htype

theorem ident_of_typeOn : type.ident = context.ident symbol.name :=
  ((runs_typeOn h symbol parent).value type htype (fun _ => True) fun _ _ => trivial).1

theorem parent?_of_typeOn : type.parent? = parent :=
  ((runs_typeOn h symbol parent).value type htype (fun _ => True) fun _ _ => trivial).2.1

theorem references_of_typeOn {key : Key} (hkey : key ∈ type.references) :
    context.Names (· ∈ (context.typeOn symbol parent).notes.met) key ∨
      ∃ other ∈ parent, key = other.key ∨ key ∈ other.references :=
  ((runs_typeOn h symbol parent).value type htype (· ∈ (context.typeOn symbol parent).notes.met)
    fun _ => id).2.2 key hkey

end TypeOn

/-- **To build a type on top of its parent never fails.** -/
theorem exists_typeOn (h : context.Indexed) (symbol : Symbol) (parent : Option TypeDecl) :
    ∃ type, (context.typeOn symbol parent).outcome = .ok type :=
  (runs_typeOn h symbol parent).exists_value

end Bindery.Assembly.Context
