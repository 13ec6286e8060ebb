import Bindery.Proofs.Assembly.Shown

/-!
# What a member adds

The members of a type are built one after the other, but all that a member learns from those
before it is whether a field of its name is declared already
(`Bindery.Assembly.Context.isDeclared`). What it adds to them is its **gain**
(`Bindery.Assembly.Context.gain`), and building it is to append this gain to what was built so far
(`Bindery.Assembly.Context.shown_addMember`).

No gain ever fails, so in the end there is something that all members come to, and something that
is told of them (`Bindery.Assembly.Context.Gathers`). The type is made of it
(`Bindery.Assembly.Context.shown_typeOn_eq`).
-/

namespace Bindery.Assembly.Context

open Decl (Constructor Field TypeBody TypeDecl)
open Attempt (Runs never)

variable {context : Context} {owner : Symbol} {parent : Option TypeDecl} {built more : Members}
  {member : Symbol.Member} {told : List Diagnostic}

/-! ### Members put together -/

namespace Members

/-- The members of a type with more of them. -/
def append (built more : Members) : Members :=
  ⟨built.fields ++ more.fields, built.constructors ++ more.constructors,
    built.methods ++ more.methods⟩

instance : Append Members := ⟨append⟩

@[simp] theorem fields_append : (built ++ more).fields = built.fields ++ more.fields := rfl

@[simp] theorem constructors_append :
    (built ++ more).constructors = built.constructors ++ more.constructors := rfl

@[simp] theorem methods_append : (built ++ more).methods = built.methods ++ more.methods := rfl

theorem append_fields (fields : List Field) :
    built ++ { fields } = { built with fields := built.fields ++ fields } := by
  change append built { fields } = _
  simp [append]

theorem append_constructors (constructors : List Constructor) :
    built ++ { constructors } =
      { built with constructors := built.constructors ++ constructors } := by
  change append built { constructors } = _
  simp [append]

theorem append_methods (methods : List Decl.Signature) :
    built ++ { methods } = { built with methods := built.methods ++ methods } := by
  change append built { methods } = _
  simp [append]

theorem append_empty : built ++ ({} : Members) = built := by
  rw [append_fields, List.append_nil]

end Members

/-! ### One member -/

/-- **What a member adds**, given whether a field of its name is declared already. -/
def gain (context : Context) (owner : Symbol) (declared : Bool) (member : Symbol.Member) :
    context.Attempt Members := do
  match member.kind with
  | .constructor => return { constructors := ← context.constructors owner member }
  | .field => return { fields := (← context.field owner (fun _ => declared) member).toList }
  | .method => return { methods := ← context.methods owner member }
  | .other =>
    Attempt.tell (.skipped ("skipping " ++ memberName owner member ++
      ": unrecognized member kind"))
    return {}

/-- Whether a member is a field of a name that is declared already, by the parent or by what was
built so far. -/
def isDeclared (parent : Option TypeDecl) (built : Members) (member : Symbol.Member) : Bool :=
  member.kind = .field &&
    (parent.any (·.declaresField member.name) ||
      built.fields.any (·.ident.foreign = member.name))

/-- A field only asks for its own name. -/
theorem field_congr {declared declared' : String → Bool}
    (h : declared member.name = declared' member.name) :
    context.field owner declared member = context.field owner declared' member := by
  rw [field, field, h]

/-- **A member is built** by appending what it adds. -/
theorem shown_addMember :
    (context.addMember owner parent built member).shown =
      (context.gain owner (isDeclared parent built member) member).shown.andThen
        fun more => (.ok (built ++ more), []) := by
  rw [addMember, gain, isDeclared]
  cases hkind : member.kind with
  | constructor => simp [Shown.andThen_assoc, Members.append_constructors]
  | field =>
    simp only [Attempt.shown_bind, Attempt.shown_pure, Shown.andThen_assoc, Shown.andThen_ok,
      Members.append_fields, List.append_nil, decide_true, Bool.true_and]
    exact congrArg (fun attempt : context.Attempt (Option Field) => attempt.shown.andThen _)
      (field_congr rfl)
  | method => simp [Shown.andThen_assoc, Members.append_methods]
  | other => simp [Members.append_empty]

/-! ### What is gained -/

theorem runs_field_ident (hindexed : context.Indexed) (owner : Symbol) (declared : String → Bool)
    (member : Symbol.Member) :
    (context.field owner declared member).Runs context.IsFirst never
      fun _ built => ∀ field ∈ built, field.ident = context.ident member.name := by
  rw [field]
  split
  · exact (Runs.tell _).bind fun _ => .done fun _ _ _ hfield =>
      absurd hfield (Option.not_mem_none _)
  · split
    · exact .done fun _ _ hfield => absurd hfield (Option.not_mem_none _)
    · exact .recover _ ((runs_resolveDeclared hindexed member.type).bind fun _ =>
        .done fun _ _ => rfl)

/-- **A gain never fails**, and the fields in it are those of the member. -/
theorem runs_gain (hindexed : context.Indexed) (owner : Symbol) (declared : Bool)
    (member : Symbol.Member) :
    (context.gain owner declared member).Runs context.IsFirst never fun _ more =>
      ∀ field ∈ more.fields, member.kind = .field ∧ field.ident.foreign = member.name := by
  rw [gain]
  split
  · exact (runs_constructors hindexed owner member).bind fun _ =>
      .done fun _ _ _ hfield => absurd hfield List.not_mem_nil
  · next hkind =>
    refine (runs_field_ident hindexed owner _ member).bind fun built =>
      .done fun _ hbuilt field hfield => ⟨hkind, ?_⟩
    rw [hbuilt field (Option.mem_toList.mp hfield)]
    rfl
  · exact (runs_methods hindexed owner member).bind fun _ =>
      .done fun _ _ _ hfield => absurd hfield List.not_mem_nil
  · exact (Runs.tell _).bind fun _ => .done fun _ _ _ hfield => absurd hfield List.not_mem_nil

theorem exists_shown_gain (hindexed : context.Indexed) (owner : Symbol) (declared : Bool)
    (member : Symbol.Member) :
    ∃ more told, (context.gain owner declared member).shown = (.ok more, told) := by
  obtain ⟨more, hmore⟩ := (runs_gain hindexed owner declared member).exists_value
  exact ⟨more, _, Prod.ext hmore rfl⟩

theorem fields_of_gain (hindexed : context.Indexed) {declared : Bool}
    (hgain : (context.gain owner declared member).shown = (.ok more, told)) :
    ∀ field ∈ more.fields, member.kind = .field ∧ field.ident.foreign = member.name :=
  (runs_gain hindexed owner declared member).value more (congrArg Prod.fst hgain)
    (fun _ => True) fun _ _ => trivial

/-! ### All members -/

/-- **What members come to**, on top of what was built before them, and what is told of them. -/
inductive Gathers (context : Context) (owner : Symbol) (parent : Option TypeDecl) :
    Members → List Symbol.Member → Members → List Diagnostic → Prop
  | nil (built : Members) : Gathers context owner parent built [] built []
  | cons {built more last : Members} {member : Symbol.Member} {members : List Symbol.Member}
    {told rest : List Diagnostic}
    (hgain : (context.gain owner (isDeclared parent built member) member).shown = (.ok more, told))
    (hrest : Gathers context owner parent (built ++ more) members last rest) :
    Gathers context owner parent built (member :: members) last (told ++ rest)

variable {members : List Symbol.Member} {last : Members}

/-- **Members always come to something.** -/
theorem exists_gathers (hindexed : context.Indexed) (owner : Symbol) (parent : Option TypeDecl)
    (built : Members) (members : List Symbol.Member) :
    ∃ last told, context.Gathers owner parent built members last told := by
  induction members generalizing built with
  | nil => exact ⟨built, [], .nil built⟩
  | cons member members ih =>
    obtain ⟨more, told, hgain⟩ :=
      exists_shown_gain hindexed owner (isDeclared parent built member) member
    obtain ⟨last, rest, hrest⟩ := ih (built ++ more)
    exact ⟨last, told ++ rest, .cons hgain hrest⟩

/-- What members come to does not depend on the list that the owner holds. -/
theorem Gathers.of_owner (h : context.Gathers owner parent built members last told)
    (others : List Symbol.Member) :
    context.Gathers { owner with members := others } parent built members last told := by
  induction h with
  | nil built => exact .nil built
  | cons hgain _ ih => exact .cons hgain ih

theorem Gathers.shown_foldlM (h : context.Gathers owner parent built members last told) :
    (members.foldlM (context.addMember owner parent) built).shown = (.ok last, told) := by
  induction h with
  | nil => rfl
  | cons hgain _ ih =>
    rw [List.foldlM_cons, Attempt.shown_bind, shown_addMember, hgain]
    simp [ih]

/-- What a symbol declares itself, given what its members come to. -/
def body (context : Context) (symbol : Symbol) (parent : Option TypeDecl) (built : Members) :
    TypeBody where
  ident := context.ident symbol.name
  isAbstract := symbol.kind = .interfaceType
  fields := built.fields
  constructors := allConstructors (context.ident symbol.name) (symbol.kind = .interfaceType) parent
    built.constructors
  methods := built.methods

/-- **A type is made of what its members come to.** -/
theorem shown_typeOn_eq (h : context.Gathers owner parent {} owner.members last told) :
    (context.typeOn owner parent).shown =
      (.ok (.extending (context.body owner parent last) parent), told) := by
  rw [typeOn, Attempt.shown_bind, h.shown_foldlM, Shown.andThen_ok, Attempt.shown_pure,
    List.append_nil]
  rfl

/-- Whatever type comes of a symbol is made of what its members come to. -/
theorem exists_gathers_of_typeOn (hindexed : context.Indexed) {type : TypeDecl}
    (htype : (context.typeOn owner parent).outcome = .ok type) :
    ∃ last told, context.Gathers owner parent {} owner.members last told ∧
      type = .extending (context.body owner parent last) parent := by
  obtain ⟨last, told, hgathers⟩ := exists_gathers hindexed owner parent {} owner.members
  have hshown := congrArg Prod.fst (shown_typeOn_eq hgathers)
  exact ⟨last, told, hgathers, Except.ok.inj (htype.symm.trans hshown)⟩

end Bindery.Assembly.Context
