import Bindery.Proofs.Assembly.Members

/-!
# What members come to, read off the table

What a type becomes in the bindings depends on nothing but the table
(`Bindery.Assembly.Context.typeRef?`), and so does what becomes of a signature. An attempt
**resolves to** what is read off in this way (`Bindery.Assembly.Attempt.Resolves`): it comes to it,
and where there is nothing it fails for want of a rendering. Then nothing is what is left when it is
recovered from, and of several overloads those are left of which there is something
(`Bindery.Assembly.outcome_overloads`).

So the field of a member and the constructors of a member are known beforehand
(`Bindery.Assembly.Context.outcome_field`, `Bindery.Assembly.Context.outcome_constructors`).
-/

namespace Bindery.Assembly

open Decl (Constructor Field Parameter TypeRef)

variable {n : ℕ} {α β : Type}

/-! ### Attempts -/

namespace Attempt

theorem outcome_bind (attempt : Attempt n α) (next : α → Attempt n β) :
    (attempt >>= next).outcome = attempt.outcome.bind fun value => (next value).outcome := by
  obtain ⟨outcome, notes⟩ := attempt
  cases outcome <;> rfl

/-- What an attempt comes to in the end is made of what it came to before. -/
theorem exists_of_outcome_map {attempt : Attempt n α} {make : α → β} {result : β}
    (h : (attempt >>= fun value => pure (make value)).outcome = .ok result) :
    ∃ value, attempt.outcome = .ok value ∧ make value = result := by
  rw [outcome_bind] at h
  cases houtcome : attempt.outcome with
  | error failure =>
    rw [houtcome] at h
    cases h
  | ok value =>
    rw [houtcome] at h
    exact ⟨value, rfl, Except.ok.inj h⟩

/-- **An attempt resolves to a value**, if there is one, and else it fails as there is no
rendering. -/
def Resolves (attempt : Attempt n α) (value? : Option α) : Prop :=
  ∃ text, attempt.outcome = value?.elim (.error (.unrepresentable text)) .ok

namespace Resolves

variable {attempt : Attempt n α} {value? : Option α}

theorem done (value : α) : (pure value : Attempt n α).Resolves (some value) := ⟨"", rfl⟩

/-- One attempt resolves after the other. -/
theorem bind {next : α → Attempt n β} {result? : α → Option β} (h : attempt.Resolves value?)
    (hnext : ∀ value, (next value).Resolves (result? value)) :
    (attempt >>= next).Resolves (value?.bind result?) := by
  obtain ⟨text, houtcome⟩ := h
  rw [Resolves, outcome_bind, houtcome]
  cases value? with
  | none => exact ⟨text, rfl⟩
  | some value => exact hnext value

/-- What is made of a value in the end is made where there is one. -/
theorem map {make : α → β} (h : attempt.Resolves value?) :
    (attempt >>= fun value => pure (make value)).Resolves (value?.map make) := by
  rw [Option.map_eq_bind]
  exact h.bind fun value => .done (make value)

/-- **Where there is no value, recovering leaves nothing.** -/
theorem outcome_recover (h : attempt.Resolves value?) (what : String) :
    (attempt.recover what).outcome = .ok value? := by
  obtain ⟨text, houtcome⟩ := h
  obtain ⟨outcome, notes⟩ := attempt
  cases value? with
  | none =>
    obtain rfl : outcome = .error (.unrepresentable text) := houtcome
    rfl
  | some value =>
    obtain rfl : outcome = .ok value := houtcome
    rfl

end Resolves

end Attempt

open Attempt (outcome_bind)

/-! ### Overloads -/

/-- **What is made of overloads**, one by one: of some there is something, which may depend on the
number that the overload has among all of them. -/
def ofOverloads (make? : ℕ → Symbol.Signature → Option β) (number : ℕ)
    (signatures : List Symbol.Signature) : List β :=
  (signatures.zipIdx number).filterMap fun overload => make? overload.2 overload.1

theorem ofOverloads_cons (make? : ℕ → Symbol.Signature → Option β) (number : ℕ)
    (signature : Symbol.Signature) (signatures : List Symbol.Signature) :
    ofOverloads make? number (signature :: signatures) =
      (make? number signature).toList ++ ofOverloads make? (number + 1) signatures := by
  rw [ofOverloads, List.zipIdx_cons, List.filterMap_cons]
  cases make? number signature <;> rfl

/-- Where the numbers do not matter, they can be left out. -/
theorem ofOverloads_const (make? : Symbol.Signature → Option β) (number : ℕ)
    (signatures : List Symbol.Signature) :
    ofOverloads (fun _ => make?) number signatures = signatures.filterMap make? := by
  rw [← List.zipIdx_map_fst number signatures, List.filterMap_map, List.zipIdx_map_fst]
  rfl

/-- **Of several overloads those are left that resolve** to something, in order. -/
theorem outcome_overloads {kind owner : String} {build : ℕ → Symbol.Signature → Attempt n α}
    {value? : ℕ → Symbol.Signature → Option α}
    (h : ∀ number signature, (build number signature).Resolves (value? number signature))
    (number : ℕ) (signatures : List Symbol.Signature) :
    (overloads kind owner build number signatures).outcome =
      .ok (ofOverloads value? number signatures) := by
  induction signatures generalizing number with
  | nil => rfl
  | cons signature signatures ih =>
    rw [overloads, outcome_bind, (h number signature).outcome_recover]
    change ((overloads kind owner build (number + 1) signatures) >>= _).outcome = _
    rw [outcome_bind, ih, ofOverloads_cons]
    rfl

namespace Context

variable {context : Context} {owner : Symbol} {member : Symbol.Member}

/-! ### Types and parameters -/

/-- **What a foreign type becomes**, if it has a rendering. -/
def typeRef? (context : Context) (type : ForeignType) : Option TypeRef :=
  match context.table.classify type with
  | .number => some (.primitive .number)
  | .string => some (.primitive .string)
  | .boolean => some (.primitive .boolean)
  | .void => some (.primitive .void)
  | .classLike ref => some (.declared (context.ident (context.symbol ref).name))
  | .unrepresentable => none

theorem resolves_resolve (context : Context) (type : ForeignType) :
    (context.resolve type).Resolves (context.typeRef? type) := by
  rw [resolve, typeRef?]
  cases context.table.classify type with
  | unrepresentable => exact ⟨type.text, rfl⟩
  | _ => exact ⟨"", rfl⟩

/-- What the type of a field becomes, if there is one and it has a rendering. -/
def declaredType? (context : Context) (type? : Option ForeignType) : Option TypeRef :=
  type?.bind context.typeRef?

theorem resolves_resolveDeclared (context : Context) (type? : Option ForeignType) :
    (context.resolveDeclared type?).Resolves (context.declaredType? type?) := by
  cases type? with
  | none => exact ⟨"<missing>", rfl⟩
  | some type => exact context.resolves_resolve type

/-- What a parameter becomes, if its type has a rendering. -/
def param? (context : Context) (param : Symbol.Param) : Option Parameter :=
  (context.typeRef? param.type).map fun type => ⟨context.ident param.name, type⟩

/-- **What parameters become**, if all of their types have renderings. -/
def params? (context : Context) (params : List Symbol.Param) : Option (List Parameter) :=
  params.mapM context.param?

theorem params?_cons (context : Context) (param : Symbol.Param) (params : List Symbol.Param) :
    context.params? (param :: params) = (context.typeRef? param.type).bind fun type =>
      (context.params? params).map fun rest => ⟨context.ident param.name, type⟩ :: rest := by
  rw [params?, List.mapM_cons, param?]
  cases context.typeRef? param.type with
  | none => rfl
  | some type =>
    rw [params?]
    cases params.mapM context.param? <;> rfl

theorem resolves_params (context : Context) (params : List Symbol.Param) :
    (context.params params).Resolves (context.params? params) := by
  induction params with
  | nil => exact .done []
  | cons param params ih =>
    rw [params?_cons]
    exact (context.resolves_resolve param.type).bind fun _ => ih.map

/-! ### Fields -/

/-- **The field that a member stands for**: the configuration does not deny it, and its type is
there and has a rendering. -/
def fieldOf? (context : Context) (owner : Symbol) (member : Symbol.Member) : Option Field :=
  if member.kind = .field ∧ context.config.deniesMember owner.name member.name = false then
    (context.declaredType? member.type).map fun type => ⟨context.ident member.name, type⟩
  else none

theorem fieldOf?_of_ne (hkind : member.kind ≠ .field) : context.fieldOf? owner member = none :=
  if_neg fun hboth => hkind hboth.1

theorem fieldOf?_of_denied (h : context.config.deniesMember owner.name member.name = true) :
    context.fieldOf? owner member = none :=
  if_neg fun hboth => absurd h (Bool.eq_false_iff.mp hboth.2)

theorem fieldOf?_of_allowed (hkind : member.kind = .field)
    (h : ¬ context.config.deniesMember owner.name member.name = true) :
    context.fieldOf? owner member =
      (context.declaredType? member.type).map fun type => ⟨context.ident member.name, type⟩ :=
  if_pos ⟨hkind, Bool.eq_false_iff.mpr h⟩

theorem foreign_of_fieldOf? {field : Field} (h : context.fieldOf? owner member = some field) :
    field.ident.foreign = member.name := by
  rw [fieldOf?] at h
  split at h
  · obtain ⟨type, -, rfl⟩ := Option.map_eq_some_iff.mp h
    rfl
  · cases h

/-- **A field is built** if none of its name is declared. -/
theorem outcome_field (declared : String → Bool) (hkind : member.kind = .field) :
    (context.field owner declared member).outcome =
      .ok (if declared member.name then none else context.fieldOf? owner member) := by
  rw [field]
  by_cases hdenied : context.config.deniesMember owner.name member.name = true
  · rw [if_pos hdenied, fieldOf?_of_denied hdenied, ite_self]
    rfl
  · rw [if_neg hdenied, fieldOf?_of_allowed hkind hdenied]
    split
    · rfl
    · exact (context.resolves_resolveDeclared member.type).map.outcome_recover _

/-- **What a member adds to the fields.** -/
theorem fields_gain {declared : Bool} {more : Members}
    (h : (context.gain owner declared member).outcome = .ok more) :
    more.fields = (if declared then none else context.fieldOf? owner member).toList := by
  have hother : member.kind ≠ .field →
      (if declared then none else context.fieldOf? owner member).toList = [] := by
    intro hkind
    rw [fieldOf?_of_ne hkind, ite_self]
    rfl
  rw [gain] at h
  split at h
  · next hkind =>
    obtain ⟨built, -, rfl⟩ := Attempt.exists_of_outcome_map h
    exact (hother (by simp [hkind])).symm
  · next hkind =>
    obtain ⟨built, hbuilt, rfl⟩ := Attempt.exists_of_outcome_map h
    rw [Except.ok.inj (hbuilt.symm.trans (outcome_field _ hkind))]
  · next hkind =>
    obtain ⟨built, -, rfl⟩ := Attempt.exists_of_outcome_map h
    exact (hother (by simp [hkind])).symm
  · next hkind =>
    cases h
    exact (hother (by simp [hkind])).symm

/-! ### Constructors -/

/-- The parameters of the overloads of a member, those whose types all have renderings. -/
def memberParams (context : Context) (member : Symbol.Member) : List (List Parameter) :=
  member.signatures.filterMap fun signature => context.params? signature.params

/-- **The constructors of a member**, unless it is that of an interface. -/
theorem outcome_constructors :
    (context.constructors owner member).outcome =
      .ok (if owner.kind = .interfaceType then []
        else (context.memberParams member).map fun params =>
          ⟨context.ident owner.name, params⟩) := by
  rw [constructors]
  split
  · rfl
  · rw [memberParams, List.map_filterMap, ← ofOverloads_const _ 0]
    exact outcome_overloads (fun _ signature => (context.resolves_params signature.params).map) 0
      member.signatures

/-- **What a member adds to the constructors.** -/
theorem constructors_gain {declared : Bool} {more : Members}
    (h : (context.gain owner declared member).outcome = .ok more) :
    more.constructors = if owner.kind = .interfaceType then [] else
      (if member.kind = .constructor then context.memberParams member else []).map
        fun params => ⟨context.ident owner.name, params⟩ := by
  rw [gain] at h
  split at h
  · next hkind =>
    obtain ⟨built, hbuilt, rfl⟩ := Attempt.exists_of_outcome_map h
    rw [if_pos hkind]
    exact Except.ok.inj (hbuilt.symm.trans outcome_constructors)
  · next hkind =>
    obtain ⟨built, -, rfl⟩ := Attempt.exists_of_outcome_map h
    simp [hkind]
  · next hkind =>
    obtain ⟨built, -, rfl⟩ := Attempt.exists_of_outcome_map h
    simp [hkind]
  · next hkind =>
    cases h
    simp [hkind]

end Context

end Bindery.Assembly
