import Bindery.Proofs.Assembly.Module
import Bindery.Proofs.Assembly.Resolved
import Bindery.Proofs.Decl.Dependencies

/-!
# Which constructors a class has

A class that declares no constructors itself takes over those of its parent, which may have taken
them over in its turn. So they are found on the way up: the search goes from one symbol to the next
until it comes to an interface, or to a class some of whose overloads can be built
(`Bindery.Assembly.Context.endsSearch`). Such a class provides the parameters of its overloads. If
the search ends at an interface, or nowhere, all that is left is to make a value without any
arguments (`Bindery.Assembly.Context.providedParams`). An interface thus hides whatever stands above
it from the classes below.

A type only ever looks at its parent, so this takes an induction along the chain
(`Bindery.Assembly.Context.Declares.constructors_eq`). What the parameters refer to is mentioned
again by each class that takes them over, and is a dependency of it
(`Bindery.Assembly.Context.constructors_provided`).
-/

namespace Bindery.Assembly.Context

open Decl (Constructor Key Parameter TypeDecl paramKeys)

variable {context : Context} {owner symbol : Symbol} {parent : Option TypeDecl}
  {built last : Members} {members : List Symbol.Member} {symbols : List Symbol}
  {told : List Diagnostic} {type : TypeDecl} {ref : context.Ref} {walk : List context.Ref}

/-! ### Who provides parameters -/

/-- **The constructors that a symbol declares itself**, by their parameters: the overloads whose
types all have renderings, in order. -/
def acceptedParams (context : Context) (members : List Symbol.Member) : List (List Parameter) :=
  (members.filter (·.kind = .constructor)).flatMap context.memberParams

/-- **The search for constructors ends** at an interface, and at whoever declares some itself. -/
def endsSearch (context : Context) (symbol : Symbol) : Bool :=
  symbol.kind = .interfaceType || context.acceptedParams symbol.members ≠ []

/-- **The parameters that are found on a way up**: those that are declared where the search ends, if
this is at a class. Else there is one constructor, which takes no arguments. -/
def providedParams (context : Context) (symbols : List Symbol) : List (List Parameter) :=
  match symbols.find? context.endsSearch with
  | none => [[]]
  | some symbol =>
    if symbol.kind = .interfaceType then [[]] else context.acceptedParams symbol.members

/-- One symbol on the way up. -/
theorem providedParams_cons :
    context.providedParams (symbol :: symbols) =
      if symbol.kind = .interfaceType then [[]]
      else if context.acceptedParams symbol.members = [] then context.providedParams symbols
      else context.acceptedParams symbol.members := by
  rw [providedParams, List.find?_cons, endsSearch]
  by_cases hkind : symbol.kind = .interfaceType
  · simp [hkind]
  · by_cases hnone : context.acceptedParams symbol.members = []
    · simp [hkind, hnone, providedParams]
    · simp [hkind, hnone]

/-- A class below an interface takes over nothing from above the interface. -/
example :
    let base := (Symbol.ofClass "Base").withMember (.ofConstructor [⟨[⟨"x", .number⟩], .void⟩])
    let middle := (Symbol.ofInterface "Middle").extending "Base"
    let derived := (Symbol.ofClass "Derived").extending "Middle"
    providedParams ⟨.ofSymbols [] [base, middle, derived], .empty⟩ [derived, middle, base] =
      [[]] := by
  decide +kernel

/-- There is always some way to make a value. -/
theorem providedParams_ne_nil (context : Context) (symbols : List Symbol) :
    context.providedParams symbols ≠ [] := by
  induction symbols with
  | nil => exact List.cons_ne_nil _ _
  | cons symbol symbols ih =>
    rw [providedParams_cons]
    split
    · exact List.cons_ne_nil _ _
    · split
      · exact ih
      · assumption

/-! ### The constructors of a type -/

/-- Constructors of a type with these parameters. -/
def withParams (ident : Ident) (params : List (List Parameter)) : List Constructor :=
  params.map (⟨ident, ·⟩)

theorem owner_of_mem_withParams {ident : Ident} {params : List (List Parameter)}
    {constructor : Constructor} (h : constructor ∈ withParams ident params) :
    constructor.owner = ident := by
  obtain ⟨_, -, rfl⟩ := List.mem_map.mp h
  rfl

theorem params_withParams (ident : Ident) (params : List (List Parameter)) :
    (withParams ident params).map (·.params) = params := by
  rw [withParams, List.map_map]
  exact List.map_id params

theorem retarget_withParams (ident other : Ident) (params : List (List Parameter)) :
    (withParams other params).map (·.retarget ident) = withParams ident params :=
  List.map_map

theorem withParams_eq_nil {ident : Ident} {params : List (List Parameter)} :
    withParams ident params = [] ↔ params = [] :=
  List.map_eq_nil_iff

/-- **What members come to** are the constructors that they declare, unless they are members of an
interface. -/
theorem Gathers.constructors_eq (h : context.Gathers owner parent built members last told) :
    last.constructors = built.constructors ++ if owner.kind = .interfaceType then []
      else withParams (context.ident owner.name) (context.acceptedParams members) := by
  induction h with
  | nil built => simp [acceptedParams, withParams]
  | @cons built more last member members told rest hgain _ ih =>
    rw [ih, Members.constructors_append, constructors_gain (congrArg Prod.fst hgain),
      List.append_assoc]
    by_cases hkind : owner.kind = .interfaceType
    · simp [hkind]
    · by_cases hmember : member.kind = .constructor
      · simp [hkind, hmember, acceptedParams, withParams]
      · simp [hkind, hmember, acceptedParams]

/-- Without a parent there is nothing to take over. -/
theorem allConstructors_none (ident : Ident) :
    allConstructors ident false none [] = withParams ident (context.providedParams []) :=
  rfl

/-- **What is taken over from a parent** are the parameters that are found from there on. -/
theorem allConstructors_some {above : TypeDecl} {other : Ident}
    (habove : above.body.constructors = if symbol.kind = .interfaceType then []
      else withParams other (context.providedParams (symbol :: symbols))) (ident : Ident) :
    allConstructors ident false (some above) [] =
      withParams ident (context.providedParams (symbol :: symbols)) := by
  rw [allConstructors, if_neg (by simp), Option.map_some, Option.getD_some, habove]
  by_cases hkind : symbol.kind = .interfaceType
  · rw [if_pos hkind, providedParams_cons, if_pos hkind]
    rfl
  · rw [if_neg hkind]
    split
    · next hnone => exact absurd (withParams_eq_nil.mp hnone) (context.providedParams_ne_nil _)
    · exact retarget_withParams ident other _

/-- **A type on top of its parent** has the constructors that are found from its symbol on, if what
it can take over are those that are found further up. -/
theorem constructors_of_typeOn (hindexed : context.Indexed)
    (htype : (context.typeOn owner parent).outcome = .ok type)
    (hparent : allConstructors (context.ident owner.name) false parent [] =
      withParams (context.ident owner.name) (context.providedParams symbols)) :
    type.body.constructors = if owner.kind = .interfaceType then []
      else withParams (context.ident owner.name) (context.providedParams (owner :: symbols)) := by
  obtain ⟨last, told, hgathers, rfl⟩ := exists_gathers_of_typeOn hindexed htype
  rw [body_extending]
  change allConstructors _ _ _ last.constructors = _
  rw [hgathers.constructors_eq, providedParams_cons]
  by_cases hkind : owner.kind = .interfaceType
  · simp [allConstructors, hkind]
  · by_cases hnone : context.acceptedParams owner.members = []
    · simpa [hkind, hnone, withParams] using hparent
    · simp [allConstructors, hkind, hnone, withParams]

theorem isAbstract_of_typeOn (hindexed : context.Indexed)
    (htype : (context.typeOn owner parent).outcome = .ok type) :
    type.body.isAbstract = decide (owner.kind = .interfaceType) := by
  obtain ⟨last, told, -, rfl⟩ := exists_gathers_of_typeOn hindexed htype
  rw [body_extending]
  rfl

/-! ### The way up -/

/-- A way up begins where it starts from. -/
theorem Ascent.exists_eq_cons (h : context.Ascent ref walk) : ∃ rest, walk = ref :: rest := by
  cases h with
  | top => exact ⟨[], rfl⟩
  | step _ hwalk => exact ⟨_, rfl⟩

namespace Declares

/-- Which of the types in a chain are interfaces is read off the way up. -/
theorem chain_isAbstract (h : context.Declares ref type) (hindexed : context.Indexed)
    (hwalk : context.Ascent ref walk) : type.chain.map (·.isAbstract) =
      walk.map fun other => decide ((context.symbol other).kind = .interfaceType) := by
  induction h generalizing walk with
  | top _ hparent htype =>
    obtain rfl := hwalk.unique (.top hparent)
    rw [chain_eq_of_parent?_eq_none (parent?_of_typeOn hindexed htype)]
    exact congrArg ([·]) (isAbstract_of_typeOn hindexed htype)
  | step _ hextends habove htype ih =>
    obtain ⟨rest, hrest, -⟩ := habove.exists_ascent hindexed
    obtain rfl := hwalk.unique (.step hextends hrest)
    rw [chain_eq_of_parent?_eq_some (parent?_of_typeOn hindexed htype), List.map_cons,
      List.map_cons, ih hrest, isAbstract_of_typeOn hindexed htype]

/-- **The constructors of a type are found on the way up**, unless it is an interface. -/
theorem constructors_eq (h : context.Declares ref type) (hindexed : context.Indexed)
    (hwalk : context.Ascent ref walk) : type.body.constructors =
      if (context.symbol ref).kind = .interfaceType then []
      else withParams type.ident (context.providedParams (walk.map context.symbol)) := by
  rw [ident_of_typeOn hindexed (h.typeOn_eq hindexed)]
  induction h generalizing walk with
  | top _ hparent htype =>
    obtain rfl := hwalk.unique (.top hparent)
    exact constructors_of_typeOn hindexed htype (allConstructors_none _)
  | step _ hextends habove htype ih =>
    obtain ⟨walk, hrest, -⟩ := habove.exists_ascent hindexed
    obtain rfl := hwalk.unique (.step hextends hrest)
    obtain ⟨rest, rfl⟩ := hrest.exists_eq_cons
    exact constructors_of_typeOn hindexed htype (allConstructors_some (ih hrest) _)

/-- **Parameters are provided from above**, one constructor for each list of them. -/
theorem params_constructors (h : context.Declares ref type) (hindexed : context.Indexed)
    (hwalk : context.Ascent ref walk) : type.body.constructors.map (·.params) =
      if type.body.isAbstract then [] else context.providedParams (walk.map context.symbol) := by
  rw [h.constructors_eq hindexed hwalk, isAbstract_of_typeOn hindexed (h.typeOn_eq hindexed)]
  by_cases hkind : (context.symbol ref).kind = .interfaceType
  · simp [hkind]
  · simp [hkind, params_withParams]

/-- Whoever takes a constructor over makes values of its own with it. -/
theorem owner_of_constructor (h : context.Declares ref type) (hindexed : context.Indexed)
    {constructor : Constructor} (hmem : constructor ∈ type.body.constructors) :
    constructor.owner = type.ident := by
  obtain ⟨walk, hwalk, -⟩ := h.exists_ascent hindexed
  rw [h.constructors_eq hindexed hwalk] at hmem
  split at hmem
  · exact absurd hmem List.not_mem_nil
  · exact owner_of_mem_withParams hmem

end Declares

/-- **Constructors are provided from above.** An interface in a module has no constructors. A class
has those that are found on the way up from its symbol, and makes values of its own with them. All
that their parameters refer to is a dependency of the class, itself apart. -/
theorem constructors_provided (sources : List String) (symbols : List Symbol) (config : Config)
    (count : Option ℕ) :
    let context : Context := ⟨.ofSymbols sources symbols, config⟩
    ∃ assembled, context.assemble (context.listed count) = .ok assembled ∧
      ∀ type : TypeDecl, .type type ∈ assembled.decls →
        (∃ walk, context.ClearAscent type.ident.foreign walk ∧
          type.chain.map (·.ident) =
            walk.map (fun ref => context.ident (context.symbol ref).name) ∧
          type.chain.map (·.isAbstract) =
            walk.map (fun ref => decide ((context.symbol ref).kind = .interfaceType)) ∧
          type.body.constructors.map (·.params) = if type.body.isAbstract then []
            else context.providedParams (walk.map context.symbol)) ∧
        ∀ constructor ∈ type.body.constructors, constructor.owner = type.ident ∧
          ∀ param ∈ constructor.params, ∀ key ∈ param.type.key?,
            key ≠ type.key → key ∈ type.dependencies := by
  intro context
  have hindexed : context.Indexed := indexed_ofSymbols sources symbols config
  obtain ⟨assembled, last, hassemble, hends⟩ := exists_assemble hindexed count
  refine ⟨assembled, hassemble, fun type hmem => ?_⟩
  obtain ⟨ref, hlookup, hdeclares⟩ := hends.exists_declares hmem
  obtain ⟨walk, hwalk, -, hidents⟩ := hdeclares.exists_ascent hindexed
  refine ⟨⟨walk, hdeclares.clearAscent hindexed hlookup hwalk, hidents,
    hdeclares.chain_isAbstract hindexed hwalk, hdeclares.params_constructors hindexed hwalk⟩,
    fun constructor hconstructor => ⟨hdeclares.owner_of_constructor hindexed hconstructor, ?_⟩⟩
  intro param hparam key hkey hother
  have hkeys : key ∈ paramKeys constructor.params := List.mem_filterMap.mpr ⟨param, hparam, hkey⟩
  exact TypeDecl.mem_dependencies.mpr
    ⟨hother, TypeDecl.mem_references_of_constructor hconstructor hkeys⟩

end Bindery.Assembly.Context
