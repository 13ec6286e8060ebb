import Bindery.Proofs.Assembly.Members
import Bindery.Proofs.Assembly.Values

/-!
# What attempts meet

The types of a signature are resolved one by one, so classes and interfaces are met up to the first
type without a rendering (`Bindery.Assembly.Context.seen`). If there is such a type the signature is
dropped, but what was met before it is not forgotten: it is **left over**
(`Bindery.Assembly.Context.LeftOver`).

Nothing else is met in vain. Whatever an attempt at a declaration meets is **justified**
(`Bindery.Assembly.Context.Justifies`): the declaration refers to it, or it is left over from a
signature that was dropped.
-/

namespace Bindery

/-- **The types of a signature**, in the order in which they are resolved. -/
def Symbol.Signature.types (signature : Symbol.Signature) : List ForeignType :=
  signature.params.map (·.type) ++ [signature.returns]

namespace Assembly.Context

open Decl (Constructor Field Key Parameter TypeBody TypeDecl TypeRef paramKeys)
open Attempt (Runs never exists_of_bind_ok)

variable {context : Context} {α β : Type} {types types' : List ForeignType} {type : ForeignType}
  {left left' : String → Prop} {refers : α → Key → Prop} {refers' : β → Key → Prop} {name : String}

/-! ### Types that are resolved one by one -/

/-- **What is seen of some types**: the classes and interfaces up to the first type without a
rendering. -/
def seen (context : Context) : List ForeignType → List context.Ref
  | [] => []
  | type :: rest =>
    match context.table.classify type with
    | .classLike ref => ref :: context.seen rest
    | .unrepresentable => []
    | _ => context.seen rest

/-- **Types are dropped** if one of them has no rendering. -/
def Drops (context : Context) (types : List ForeignType) : Prop :=
  ∃ type ∈ types, context.table.classify type = .unrepresentable

/-- Types are dropped after one of this name was seen. -/
def DropsAfter (context : Context) (types : List ForeignType) (name : String) : Prop :=
  context.Drops types ∧ ∃ ref ∈ context.seen types, (context.symbol ref).name = name

theorem drops_cons_iff : context.Drops (type :: types) ↔
    context.table.classify type = .unrepresentable ∨ context.Drops types := by
  simp [Drops]

theorem seen_append_of_drops (h : context.Drops types) :
    context.seen (types ++ types') = context.seen types := by
  induction types with
  | nil =>
    obtain ⟨type, hmem, -⟩ := h
    exact absurd hmem List.not_mem_nil
  | cons type types ih =>
    rw [List.cons_append, seen, seen]
    cases hclass : context.table.classify type with
    | unrepresentable => rfl
    | classLike ref =>
      rw [drops_cons_iff, hclass] at h
      exact congrArg _ (ih (h.resolve_left nofun))
    | _ =>
      rw [drops_cons_iff, hclass] at h
      exact ih (h.resolve_left nofun)

theorem seen_append (h : ¬ context.Drops types) :
    context.seen (types ++ types') = context.seen types ++ context.seen types' := by
  induction types with
  | nil => rfl
  | cons type types ih =>
    rw [drops_cons_iff, not_or] at h
    rw [List.cons_append, seen, seen]
    cases hclass : context.table.classify type with
    | unrepresentable => exact absurd hclass h.1
    | classLike ref => exact congrArg _ (ih h.2)
    | _ => exact ih h.2

/-- **An attempt resolves types one by one**: it meets what is seen of them, it refers to all that
if it succeeds, and it only fails if they are dropped. -/
structure Sees (context : Context) (types : List ForeignType) (refers : α → Key → Prop)
    (attempt : context.Attempt α) : Prop where
  met_eq : attempt.notes.met = context.seen types
  rendered : ∀ value, attempt.outcome = .ok value → ¬ context.Drops types ∧
    ∀ ref ∈ context.seen types, refers value (.type (context.symbol ref).name)
  dropped : ∀ failure, attempt.outcome = .error failure → context.Drops types

namespace Sees

variable {attempt : context.Attempt α} {next : α → context.Attempt β}

theorem done {value : α} : context.Sees [] refers (pure value : context.Attempt α) where
  met_eq := rfl
  rendered := fun _ _ => ⟨fun ⟨_, hmem, _⟩ => absurd hmem List.not_mem_nil,
    fun _ hmem => absurd hmem List.not_mem_nil⟩
  dropped := fun _ heq => nomatch heq

/-- **The types of one attempt after those of another**. -/
theorem bind (h : context.Sees types refers attempt)
    (hnext : ∀ value, context.Sees types' refers' (next value))
    (hkeep : ∀ value result, (next value).outcome = .ok result →
      ∀ key, refers value key → refers' result key) :
    context.Sees (types ++ types') refers' (attempt >>= next) := by
  change context.Sees _ _ (attempt.andThen next)
  rw [Attempt.andThen]
  cases houtcome : attempt.outcome with
  | error failure =>
    have hdrops := h.dropped failure houtcome
    have happend : context.Drops (types ++ types') :=
      hdrops.imp fun _ hdrop => ⟨List.mem_append_left _ hdrop.1, hdrop.2⟩
    refine ⟨?_, ?_, fun _ _ => happend⟩
    · rw [seen_append_of_drops hdrops]
      exact h.met_eq
    · intro value hvalue
      cases hvalue
  | ok value =>
    obtain ⟨hrendered, hrefers⟩ := h.rendered value houtcome
    refine ⟨?_, fun result hresult => ?_, fun failure hfailure => ?_⟩
    · rw [seen_append hrendered, ← h.met_eq, ← (hnext value).met_eq]
      rfl
    · obtain ⟨hrendered', hrefers'⟩ := (hnext value).rendered result hresult
      refine ⟨?_, fun ref href => ?_⟩
      · rintro ⟨type, hmem, hdrop⟩
        rcases List.mem_append.mp hmem with hmem | hmem
        · exact hrendered ⟨type, hmem, hdrop⟩
        · exact hrendered' ⟨type, hmem, hdrop⟩
      · rw [seen_append hrendered] at href
        rcases List.mem_append.mp href with href | href
        · exact hkeep value result hresult _ (hrefers ref href)
        · exact hrefers' ref href
    · obtain ⟨type, hmem, hdrop⟩ := (hnext value).dropped failure hfailure
      exact ⟨type, List.mem_append_right _ hmem, hdrop⟩

theorem map (h : context.Sees types refers attempt) {f : α → β}
    (hkeep : ∀ value key, refers value key → refers' (f value) key) :
    context.Sees types refers' (attempt >>= fun value => pure (f value)) := by
  have hbind := h.bind (fun value => (done : context.Sees [] refers' (pure (f value))))
    fun value result hresult => by
      obtain rfl := Except.ok.inj hresult
      exact hkeep value
  rwa [List.append_nil] at hbind

end Sees

theorem sees_resolve (type : ForeignType) : context.Sees [type]
    (fun (type : TypeRef) key => key ∈ type.key?) (context.resolve type) := by
  have hdrops : context.Drops [type] ↔ context.table.classify type = .unrepresentable := by
    simp [Drops]
  constructor
  · rw [resolve, seen]
    cases context.table.classify type <;> rfl
  · intro value hvalue
    rw [resolve] at hvalue
    rw [hdrops, seen]
    cases hclass : context.table.classify type with
    | unrepresentable =>
      rw [hclass] at hvalue
      cases hvalue
    | classLike ref =>
      rw [hclass] at hvalue
      obtain rfl := Except.ok.inj hvalue
      refine ⟨?_, fun other hmem => ?_⟩
      · rintro ⟨⟩
      · obtain rfl := List.mem_singleton.mp hmem
        rfl
    | _ =>
      refine ⟨?_, fun _ hmem => absurd hmem List.not_mem_nil⟩
      rintro ⟨⟩
  · intro failure hfailure
    rw [resolve] at hfailure
    rw [hdrops]
    cases hclass : context.table.classify type with
    | unrepresentable => rfl
    | _ =>
      rw [hclass] at hfailure
      cases hfailure

theorem sees_params (params : List Symbol.Param) : context.Sees (params.map (·.type))
    (fun (params : List Parameter) key => key ∈ paramKeys params) (context.params params) := by
  induction params with
  | nil => exact .done
  | cons param params ih =>
    rw [Context.params, List.map_cons, ← List.singleton_append]
    refine (sees_resolve param.type).bind (fun type => ih.map fun rest key hkey => ?_)
      fun type result hresult key hkey => ?_
    · obtain ⟨parameter, hmem, hkey⟩ := List.mem_filterMap.mp hkey
      exact List.mem_filterMap.mpr ⟨parameter, List.mem_cons_of_mem _ hmem, hkey⟩
    · obtain ⟨rest, -, hresult⟩ := exists_of_bind_ok hresult
      obtain rfl := Except.ok.inj hresult
      exact List.mem_filterMap.mpr ⟨_, List.mem_cons_self, hkey⟩

theorem sees_signature (name : String) (owner : Option Ident) (overload : ℕ)
    (signature : Symbol.Signature) : context.Sees signature.types
      (fun (built : Decl.Signature) key => key ∈ built.references)
      (context.signature name owner overload signature) := by
  refine (sees_params signature.params).bind (fun params => (sees_resolve signature.returns).map
    fun returns key hkey => ?_) fun params result hresult key hkey => ?_
  · exact List.mem_append_right _ (Option.mem_toList.mpr hkey)
  · obtain ⟨returns, -, hresult⟩ := exists_of_bind_ok hresult
    obtain rfl := Except.ok.inj hresult
    exact List.mem_append_left _ hkey

/-! ### What is met is justified -/

/-- **Whatever an attempt meets is justified**: its value refers to it, or it is left over. -/
def Justifies (context : Context) (left : String → Prop) (refers : α → Key → Prop)
    (attempt : context.Attempt α) : Prop :=
  ∀ ref ∈ attempt.notes.met, left (context.symbol ref).name ∨
    ∃ value, attempt.outcome = .ok value ∧ refers value (.type (context.symbol ref).name)

theorem Sees.justifies {attempt : context.Attempt α} (h : context.Sees types refers attempt) :
    context.Justifies (context.DropsAfter types) refers attempt := by
  intro ref hmem
  rw [h.met_eq] at hmem
  cases houtcome : attempt.outcome with
  | ok value => exact Or.inr ⟨value, rfl, (h.rendered value houtcome).2 ref hmem⟩
  | error failure => exact Or.inl ⟨h.dropped failure houtcome, ref, hmem, rfl⟩

namespace Justifies

variable {attempt : context.Attempt α} {next : α → context.Attempt β}

theorem of_met_eq_nil (h : attempt.notes.met = []) : context.Justifies left refers attempt :=
  fun _ hmem => absurd (h ▸ hmem) List.not_mem_nil

theorem mono (h : context.Justifies left refers attempt) (hleft : ∀ name, left name → left' name) :
    context.Justifies left' refers attempt :=
  fun ref hmem => (h ref hmem).imp_left (hleft _)

/-- **One attempt after the other**, where the second one never fails and refers to whatever the
first one refers to. -/
theorem bind (h : context.Justifies left refers attempt)
    (hnext : ∀ value, context.Justifies left refers' (next value))
    (hvalue : ∀ value, ∃ result, (next value).outcome = .ok result ∧
      ∀ key, refers value key → refers' result key) :
    context.Justifies left refers' (attempt >>= next) := by
  change context.Justifies left refers' (attempt.andThen next)
  rw [Attempt.andThen]
  intro ref hmem
  cases houtcome : attempt.outcome with
  | error failure =>
    rw [houtcome] at hmem
    rcases h ref hmem with hleft | ⟨value, hvalue, -⟩
    · exact Or.inl hleft
    · rw [houtcome] at hvalue
      cases hvalue
  | ok value =>
    rw [houtcome] at hmem
    rcases List.mem_append.mp hmem with hmem | hmem
    · refine (h ref hmem).imp_right ?_
      rintro ⟨other, hother, hrefers⟩
      obtain rfl := Except.ok.inj (houtcome.symm.trans hother)
      obtain ⟨result, hresult, hkeep⟩ := hvalue value
      exact ⟨result, hresult, hkeep _ hrefers⟩
    · exact hnext value ref hmem

theorem map (h : context.Justifies left refers attempt) {f : α → β}
    (hkeep : ∀ value key, refers value key → refers' (f value) key) :
    context.Justifies left refers' (attempt >>= fun value => pure (f value)) :=
  h.bind (fun _ => of_met_eq_nil rfl) fun value => ⟨f value, rfl, hkeep value⟩

/-- What a member meets that fails is left over. -/
theorem recover (h : context.Justifies left refers attempt) (what : String) :
    context.Justifies left (fun value? key => ∃ value ∈ value?, refers value key)
      (attempt.recover what) := by
  intro ref hmem
  rw [Attempt.recover] at hmem ⊢
  cases houtcome : attempt.outcome with
  | ok value =>
    rw [houtcome] at hmem
    refine (h ref hmem).imp_right ?_
    rintro ⟨other, hother, hrefers⟩
    exact ⟨some other, congrArg _ (congrArg some (Except.ok.inj (houtcome.symm.trans hother))),
      other, rfl, hrefers⟩
  | error failure =>
    have hmet : ref ∈ attempt.notes.met := by
      rw [houtcome] at hmem
      cases failure with
      | unrepresentable => rwa [← List.append_nil attempt.notes.met]
      | _ => exact hmem
    rcases h ref hmet with hleft | ⟨value, hvalue, -⟩
    · exact Or.inl hleft
    · rw [houtcome] at hvalue
      cases hvalue

end Justifies

/-- **Overloads only meet** what those that are built refer to, and what is left over. -/
theorem justifies_overloads {kind owner : String} {typesOf : Symbol.Signature → List ForeignType}
    {build : ℕ → Symbol.Signature → context.Attempt α} {fit : context.Ref → Prop}
    {post : (context.Ref → Prop) → α → Prop}
    (hbuild : ∀ number signature, context.Sees (typesOf signature) refers (build number signature))
    (hruns : ∀ number signature,
      (build number signature).Runs fit Failure.IsUnrepresentable post)
    (number : ℕ) (signatures : List Symbol.Signature) :
    context.Justifies (fun name => ∃ types ∈ signatures.map typesOf, context.DropsAfter types name)
      (fun values key => ∃ value ∈ values, refers value key)
      (overloads kind owner build number signatures) := by
  induction signatures generalizing number with
  | nil => exact .of_met_eq_nil rfl
  | cons signature signatures ih =>
    have hfirst := (hbuild number signature).justifies.recover (overloadName kind number owner)
    rw [overloads, List.map_cons]
    refine (hfirst.mono fun name hdrops => ⟨_, List.mem_cons_self, hdrops⟩).bind (fun built => ?_)
      fun built => ?_
    · refine ((ih (number + 1)).mono ?_).map ?_
      · rintro name ⟨types, hmem, hdrops⟩
        exact ⟨types, List.mem_cons_of_mem _ hmem, hdrops⟩
      · rintro rest key ⟨value, hmem, hrefers⟩
        exact ⟨value, List.mem_append_right _ hmem, hrefers⟩
    · have hrest : (overloads kind owner build (number + 1) signatures).Runs fit never _ :=
        runs_overloads hruns (number + 1) signatures
      obtain ⟨rest, hrest⟩ := hrest.exists_value
      refine ⟨built.toList ++ rest, ?_, ?_⟩
      · change (Attempt.andThen _ _).outcome = _
        rw [Attempt.andThen, hrest]
        rfl
      · rintro key ⟨value, hvalue, hrefers⟩
        exact ⟨value, List.mem_append_left _ (Option.mem_toList.mpr hvalue), hrefers⟩

/-! ### Members -/

/-- **The signatures of a member** that are attempted, each as the types that it mentions. -/
def memberSignatures (context : Context) (owner : Symbol) (member : Symbol.Member) :
    List (List ForeignType) :=
  match member.kind with
  | .constructor =>
    if owner.kind = .interfaceType then []
    else member.signatures.map fun signature => signature.params.map (·.type)
  | .method =>
    if context.config.deniesMember owner.name member.name then []
    else member.signatures.map (·.types)
  | _ => []

/-- A name is left over from a member. -/
def LeftByMember (context : Context) (owner : Symbol) (member : Symbol.Member) (name : String) :
    Prop :=
  ∃ types ∈ context.memberSignatures owner member, context.DropsAfter types name

variable {owner : Symbol} {parent : Option TypeDecl} {member : Symbol.Member} {built : Members}

theorem justifies_constructors (hindexed : context.Indexed) (hkind : member.kind = .constructor) :
    context.Justifies (context.LeftByMember owner member)
      (fun built key => ∃ constructor ∈ built, key ∈ paramKeys constructor.params)
      (context.constructors owner member) := by
  rw [constructors]
  split
  · exact .of_met_eq_nil rfl
  · next hclass =>
    have hruns : ∀ signature : Symbol.Signature, Runs context.IsFirst Failure.IsUnrepresentable
        (fun _ (_ : Constructor) => True)
        (do return ⟨context.ident owner.name, ← context.params signature.params⟩) :=
      fun signature => (runs_params hindexed signature.params).bind fun _ =>
        .done fun _ _ => trivial
    refine (justifies_overloads (fun _ signature => (sees_params signature.params).map ?_)
      (fun _ => hruns) 0 member.signatures).mono fun name hleft => ?_
    · exact fun params key hkey => hkey
    · rw [LeftByMember, memberSignatures, hkind]
      simpa only [if_neg hclass] using hleft

theorem justifies_methods (hindexed : context.Indexed) (hkind : member.kind = .method) :
    context.Justifies (context.LeftByMember owner member)
      (fun built key => ∃ signature ∈ built, key ∈ signature.references)
      (context.methods owner member) := by
  rw [methods]
  split
  · exact .of_met_eq_nil rfl
  · next hallowed =>
    refine (justifies_overloads (sees_signature member.name _)
      (runs_signature hindexed member.name _) 0 member.signatures).mono fun name hleft => ?_
    rw [LeftByMember, memberSignatures, hkind]
    simpa only [if_neg hallowed] using hleft

/-- A type that may be missing is met only if it is referred to. -/
theorem justifies_resolveDeclared (type? : Option ForeignType) :
    context.Justifies left (fun (type : TypeRef) key => key ∈ type.key?)
      (context.resolveDeclared type?) := by
  cases type? with
  | none => exact .of_met_eq_nil rfl
  | some type =>
    refine (sees_resolve type).justifies.mono fun name ⟨⟨other, hmem, hdrop⟩, ref, href, _⟩ => ?_
    -- nothing is seen of a single type without a rendering
    rw [List.mem_singleton.mp hmem] at hdrop
    rw [seen, hdrop] at href
    exact absurd href List.not_mem_nil

theorem justifies_field (declared : String → Bool) :
    context.Justifies left (fun built key => ∃ field ∈ built, key ∈ field.type.key?)
      (context.field owner declared member) := by
  rw [field]
  split
  · exact .of_met_eq_nil rfl
  · split
    · exact .of_met_eq_nil rfl
    · have hbuilt : context.Justifies left (fun (field : Field) key => key ∈ field.type.key?)
          (context.resolveDeclared member.type >>= fun type =>
            pure ⟨context.ident member.name, type⟩) :=
        (justifies_resolveDeclared member.type).map fun _ _ hkey => hkey
      exact hbuilt.recover _

/-- **A member only meets** what the members built with it refer to, and what is left over from
it. -/
theorem justifies_addMember (hindexed : context.Indexed) (owner : Symbol)
    (parent : Option TypeDecl) (built : Members) (member : Symbol.Member) :
    context.Justifies (context.LeftByMember owner member) (fun more key => key ∈ more.keys)
      (context.addMember owner parent built member) := by
  rw [addMember]
  simp only [Members.mem_keys_iff]
  split
  · next hkind =>
    refine (justifies_constructors hindexed hkind).map ?_
    rintro more key ⟨constructor, hmem, hkey⟩
    exact Or.inr (Or.inl ⟨constructor, List.mem_append_right _ hmem, hkey⟩)
  · refine (justifies_field _).map ?_
    rintro more key ⟨field, hmem, hkey⟩
    exact Or.inl ⟨field, List.mem_append_right _ (Option.mem_toList.mpr hmem), hkey⟩
  · next hkind =>
    refine (justifies_methods hindexed hkind).map ?_
    rintro more key ⟨signature, hmem, hkey⟩
    exact Or.inr (Or.inr ⟨signature, List.mem_append_right _ hmem, hkey⟩)
  · exact .of_met_eq_nil rfl

theorem Members.mem_keys_append {more : Members} {key : Key} (h : key ∈ built.keys) :
    key ∈ (built ++ more).keys := by
  rw [Members.mem_keys_iff] at h ⊢
  rcases h with ⟨field, hmem, hkey⟩ | ⟨constructor, hmem, hkey⟩ | ⟨signature, hmem, hkey⟩
  · exact Or.inl ⟨field, List.mem_append_left _ hmem, hkey⟩
  · exact Or.inr (Or.inl ⟨constructor, List.mem_append_left _ hmem, hkey⟩)
  · exact Or.inr (Or.inr ⟨signature, List.mem_append_left _ hmem, hkey⟩)

theorem runs_addMember_keys (hindexed : context.Indexed) (owner : Symbol)
    (parent : Option TypeDecl) (key : Key) (built : Members) (member : Symbol.Member) :
    (context.addMember owner parent built member).Runs context.IsFirst never
      fun _ more => key ∈ built.keys → key ∈ more.keys := by
  rw [addMember]
  split
  · refine (runs_constructors hindexed owner member).bind fun more => .done fun _ _ hkey => ?_
    rw [← Members.append_constructors]
    exact Members.mem_keys_append hkey
  · refine (runs_field hindexed owner _ member).bind fun more => .done fun _ _ hkey => ?_
    rw [← Members.append_fields]
    exact Members.mem_keys_append hkey
  · refine (runs_methods hindexed owner member).bind fun more => .done fun _ _ hkey => ?_
    rw [← Members.append_methods]
    exact Members.mem_keys_append hkey
  · exact (Runs.tell _).bind fun _ => .done fun _ _ hkey => hkey

theorem justifies_members (hindexed : context.Indexed) (owner : Symbol)
    (parent : Option TypeDecl) (built : Members) (members : List Symbol.Member) :
    context.Justifies (fun name => ∃ member ∈ members, context.LeftByMember owner member name)
      (fun last key => key ∈ last.keys)
      (members.foldlM (context.addMember owner parent) built) := by
  induction members generalizing built with
  | nil => exact .of_met_eq_nil rfl
  | cons member members ih =>
    rw [List.foldlM_cons]
    refine ((justifies_addMember hindexed owner parent built member).mono ?_).bind
      (fun more => (ih more).mono ?_) fun more => ?_
    · exact fun name hleft => ⟨member, List.mem_cons_self, hleft⟩
    · exact fun name ⟨other, hmem, hleft⟩ => ⟨other, List.mem_cons_of_mem _ hmem, hleft⟩
    · obtain ⟨last, hlast⟩ := (Runs.foldlM (fun built member (_ : member ∈ members) =>
        runs_addMember hindexed owner parent built member) more).exists_value
      refine ⟨last, hlast, fun key hkey => ?_⟩
      have hkeep := Runs.foldlM (fun built member (_ : member ∈ members) =>
        runs_addMember_keys hindexed owner parent key built member) more
      exact hkeep.value last hlast (fun _ => True) (fun _ _ => trivial) hkey

/-! ### Types -/

/-- What the members of a type refer to, the type refers to. -/
theorem mem_references_of_mem_keys {key : Key} {symbol : Symbol} (hkey : key ∈ built.keys) :
    key ∈ (TypeDecl.extending (context.body symbol parent built) parent).references := by
  simp only [TypeDecl.references, body_extending, List.mem_append, List.mem_filterMap,
    List.mem_flatMap]
  rcases Members.mem_keys_iff.mp hkey with hfield | ⟨constructor, hmem, hkey⟩ | hmethod
  · exact Or.inl (Or.inl (Or.inr hfield))
  · refine Or.inl (Or.inr ⟨constructor, ?_, hkey⟩)
    -- no constructors are taken over where there are some
    have hne : built.constructors ≠ [] := List.ne_nil_of_mem hmem
    change constructor ∈ allConstructors _ _ _ _
    rwa [allConstructors, if_pos (Or.inr hne)]
  · exact Or.inr hmethod

theorem justifies_typeOn_members (hindexed : context.Indexed) (symbol : Symbol)
    (parent : Option TypeDecl) :
    context.Justifies
      (fun name => ∃ member ∈ symbol.members, context.LeftByMember symbol member name)
      (fun type key => key ∈ type.references) (context.typeOn symbol parent) :=
  (justifies_members hindexed symbol parent {} symbol.members).map
    fun _ _ hkey => mem_references_of_mem_keys hkey

/-! ### Symbols -/

/-- **The signatures of a symbol** that are attempted, each as the types that it mentions. -/
def signatureTypes (context : Context) (symbol : Symbol) : List (List ForeignType) :=
  match symbol.kind with
  | .global => []
  | .function => if context.denies symbol then [] else symbol.signatures.map (·.types)
  | .classType | .interfaceType => symbol.members.flatMap (context.memberSignatures symbol)

/-- **A name is left over from a symbol**: one of its signatures is dropped after a class or an
interface of this name was seen. -/
def LeftOver (context : Context) (symbol : Symbol) (name : String) : Prop :=
  ∃ types ∈ context.signatureTypes symbol, context.DropsAfter types name

variable {symbol : Symbol}

theorem leftOver_iff_of_isClassLike (hclass : symbol.kind.isClassLike = true) :
    context.LeftOver symbol name ↔
      ∃ member ∈ symbol.members, context.LeftByMember symbol member name := by
  have hsignatures : context.signatureTypes symbol =
      symbol.members.flatMap (context.memberSignatures symbol) := by
    rw [signatureTypes]
    cases hkind : symbol.kind with
    | classType => rfl
    | interfaceType => rfl
    | _ => exact absurd (hkind ▸ hclass) (by decide)
  simp only [LeftOver, LeftByMember, hsignatures, List.mem_flatMap]
  constructor
  · rintro ⟨types, ⟨member, hmember, hmem⟩, hdrops⟩
    exact ⟨member, hmember, types, hmem, hdrops⟩
  · rintro ⟨member, hmember, types, hmem, hdrops⟩
    exact ⟨types, ⟨member, hmember, hmem⟩, hdrops⟩

/-- **A type only meets** what it refers to, and what is left over from its symbol. -/
theorem justifies_typeOn (hindexed : context.Indexed) (hclass : symbol.kind.isClassLike = true)
    (parent : Option TypeDecl) :
    context.Justifies (context.LeftOver symbol) (fun type key => key ∈ type.references)
      (context.typeOn symbol parent) :=
  (justifies_typeOn_members hindexed symbol parent).mono fun _ hleft =>
    (leftOver_iff_of_isClassLike hclass).mpr hleft

theorem justifies_global (symbol : Symbol) :
    context.Justifies left
      (fun (global : Decl.Global) key => key ∈ (Decl.global global).dependencies)
      (context.global symbol) := by
  rw [Context.global]
  split
  · exact .of_met_eq_nil rfl
  · refine (justifies_resolveDeclared symbol.type).bind (fun _ => .of_met_eq_nil rfl) fun type =>
      ⟨⟨context.ident symbol.name, type⟩, rfl, fun key hkey => ?_⟩
    exact Decl.mem_ofList_iff.mpr (Option.mem_toList.mpr hkey)

theorem justifies_function (hindexed : context.Indexed) (hkind : symbol.kind = .function) :
    context.Justifies (context.LeftOver symbol)
      (fun built key => ∃ signature ∈ built, key ∈ (Decl.signature signature).dependencies)
      (context.function symbol) := by
  rw [Context.function]
  split
  · exact .of_met_eq_nil rfl
  · next hallowed =>
    have hbuilt : context.Justifies (context.LeftOver symbol)
        (fun built key => ∃ signature ∈ built, key ∈ signature.references)
        (overloads "overload" symbol.name (context.signature symbol.name none) 0
          symbol.signatures) := by
      refine (justifies_overloads (sees_signature symbol.name none)
        (runs_signature hindexed symbol.name none) 0 symbol.signatures).mono fun name hleft => ?_
      rw [LeftOver, signatureTypes, hkind]
      simpa only [if_neg hallowed] using hleft
    refine hbuilt.bind (fun _ => .of_met_eq_nil rfl) fun built => ⟨built, rfl, ?_⟩
    rintro key ⟨signature, hmem, hkey⟩
    exact ⟨signature, hmem, Decl.mem_ofList_iff.mpr hkey⟩

/-- **A symbol that stands aside only meets** what the declarations that it comes to depend on, and
what is left over from it if it is a function. -/
theorem of_mem_met_aside (hindexed : context.Indexed) {ref : context.Ref}
    (hmet : ref ∈ (context.aside symbol).notes.met) :
    (symbol.kind = .function ∧ context.LeftOver symbol (context.symbol ref).name) ∨
      ∃ decl ∈ context.values symbol, .type (context.symbol ref).name ∈ decl.dependencies := by
  have hjustifies : context.Justifies
      (fun name => symbol.kind = .function ∧ context.LeftOver symbol name)
      (fun decls key => ∃ decl ∈ decls, key ∈ decl.dependencies) (context.aside symbol) := by
    rw [aside]
    split
    · exact (justifies_global symbol).map fun global key hkey =>
        ⟨_, List.mem_singleton_self _, hkey⟩
    · next hkind =>
      refine ((justifies_function hindexed hkind).mono fun name hleft => ⟨hkind, hleft⟩).map ?_
      rintro built key ⟨signature, hmem, hkey⟩
      exact ⟨_, List.mem_map_of_mem hmem, hkey⟩
    · exact .of_met_eq_nil rfl
    · exact .of_met_eq_nil rfl
  refine (hjustifies ref hmet).imp_right ?_
  rintro ⟨decls, houtcome, decl, hdecl, hkey⟩
  refine ⟨decl, ?_, hkey⟩
  rw [values, houtcome]
  exact hdecl

end Assembly.Context

end Bindery
