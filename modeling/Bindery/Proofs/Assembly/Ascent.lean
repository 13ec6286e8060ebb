import Bindery.Proofs.Assembly.Body
import Mathlib.Logic.Relation

/-!
# From a symbol up to the top

A symbol **extends** another if its parent is a reference that the table resolves. From each
symbol there is one way up, and if it comes to a symbol without a parent, it is an **ascent**
(`Bindery.Assembly.Context.Ascent`). A way that goes round in a circle is none: no symbol of
an ascent stands above itself, so no name is met twice
(`Bindery.Assembly.Context.Ascent.nodup_names`).

What the configuration does not deny along an ascent can be built from the top down.
`Bindery.Assembly.Context.Declares` is the type that comes of it, read off the table without
any state. There is one if and only if there is an ascent that meets no denied symbol
(`Bindery.Assembly.Context.exists_declares_iff`), and its chain is that ascent
(`Bindery.Assembly.Context.Declares.exists_ascent`).
-/

namespace Bindery.Assembly.Context

open Decl (TypeDecl)

variable {context : Context} {ref parent : context.Ref} {type : TypeDecl}

/-! ### Parents -/

/-- **A symbol extends another**: its parent is a reference that the table resolves. -/
def Extends (context : Context) (ref parent : context.Ref) : Prop :=
  ∃ name, (context.symbol ref).parent = some (.named name) ∧
    context.table.lookupType? name = some parent

/-- A symbol extends no more than one other. -/
theorem Extends.unique {other : context.Ref} (h : context.Extends ref parent)
    (hother : context.Extends ref other) : parent = other := by
  obtain ⟨name, hparent, hlookup⟩ := h
  obtain ⟨name', hparent', hlookup'⟩ := hother
  obtain rfl : name = name' := by
    rw [hparent] at hparent'
    exact ForeignType.named.inj (Option.some.inj hparent')
  exact Option.some.inj (hlookup.symm.trans hlookup')

theorem Extends.isFirst (h : context.Extends ref parent) (hindexed : context.Indexed) :
    context.IsFirst parent := by
  obtain ⟨name, -, hlookup⟩ := h
  exact hindexed.isFirst hlookup

theorem Extends.ne_none (h : context.Extends ref parent) :
    (context.symbol ref).parent ≠ none := by
  obtain ⟨name, hparent, -⟩ := h
  rw [hparent]
  exact Option.some_ne_none _

/-! ### Ascents -/

/-- **The walk from a symbol up to one without a parent**. -/
inductive Ascent (context : Context) : context.Ref → List context.Ref → Prop
  | top {ref : context.Ref} (hparent : (context.symbol ref).parent = none) :
    Ascent context ref [ref]
  | step {ref parent : context.Ref} {walk : List context.Ref}
    (hextends : context.Extends ref parent) (hwalk : Ascent context parent walk) :
    Ascent context ref (ref :: walk)

namespace Ascent

variable {walk walk' : List context.Ref}

/-- There is one way up. -/
theorem unique (h : context.Ascent ref walk) (h' : context.Ascent ref walk') : walk = walk' := by
  induction h generalizing walk' with
  | top hparent =>
    cases h' with
    | top => rfl
    | step hextends => exact absurd hparent hextends.ne_none
  | step hextends hwalk ih =>
    cases h' with
    | top hparent => exact absurd hparent hextends.ne_none
    | step hextends' hwalk' =>
      obtain rfl := hextends.unique hextends'
      rw [ih hwalk']

/-- From everything on the way up the rest of it is the way up. -/
theorem exists_of_mem (h : context.Ascent ref walk) {other : context.Ref} (hmem : other ∈ walk) :
    ∃ rest, context.Ascent other rest ∧ rest.length ≤ walk.length := by
  induction h with
  | top hparent =>
    obtain rfl := List.mem_singleton.mp hmem
    exact ⟨_, .top hparent, le_rfl⟩
  | step hextends hwalk ih =>
    rcases List.mem_cons.mp hmem with rfl | hmem
    · exact ⟨_, .step hextends hwalk, le_rfl⟩
    · obtain ⟨rest, hrest, hle⟩ := ih hmem
      exact ⟨rest, hrest, Nat.le_succ_of_le hle⟩

/-- No symbol stands above itself. -/
theorem nodup (h : context.Ascent ref walk) : walk.Nodup := by
  induction h with
  | top => exact List.nodup_singleton _
  | step hextends hwalk ih =>
    refine List.nodup_cons.mpr ⟨fun hmem => ?_, ih⟩
    -- the way up from a symbol that comes again would be longer than itself
    obtain ⟨rest, hrest, hle⟩ := hwalk.exists_of_mem hmem
    rw [hrest.unique (.step hextends hwalk), List.length_cons] at hle
    omega

theorem forall_isFirst (h : context.Ascent ref walk) (hindexed : context.Indexed)
    (hfirst : context.IsFirst ref) : ∀ other ∈ walk, context.IsFirst other := by
  induction h with
  | top =>
    intro other hmem
    rwa [List.mem_singleton.mp hmem]
  | step hextends hwalk ih =>
    intro other hmem
    rcases List.mem_cons.mp hmem with rfl | hmem
    · exact hfirst
    · exact ih (hextends.isFirst hindexed) other hmem

/-- **No name is met twice** on the way up from the first type of a name. -/
theorem nodup_names (h : context.Ascent ref walk) (hindexed : context.Indexed)
    (hfirst : context.IsFirst ref) : (walk.map fun ref => (context.symbol ref).name).Nodup := by
  have hall := h.forall_isFirst hindexed hfirst
  exact h.nodup.map_on fun a ha b hb hname => (hall a ha).eq (hall b hb) hname

end Ascent

/-! ### What a symbol declares -/

theorem chain_eq_of_parent?_eq_none (h : type.parent? = none) : type.chain = [type.body] := by
  rw [TypeDecl.parent?] at h
  split at h
  · next hancestors => rw [TypeDecl.chain, hancestors]
  · exact absurd h (Option.some_ne_none _)

theorem chain_eq_of_parent?_eq_some {above : TypeDecl} (h : type.parent? = some above) :
    type.chain = type.body :: above.chain := by
  rw [TypeDecl.parent?] at h
  split at h
  · exact absurd h.symm (Option.some_ne_none _)
  · next hancestors =>
    cases h
    rw [TypeDecl.chain, hancestors]
    rfl

/-- **A symbol declares a type**: neither it nor what it extends is denied, up to a symbol
without a parent, and each type of the way is built on top of the one before. -/
inductive Declares (context : Context) : context.Ref → TypeDecl → Prop
  | top {ref : context.Ref} {type : TypeDecl}
    (hallowed : context.denies (context.symbol ref) = false)
    (hparent : (context.symbol ref).parent = none)
    (htype : (context.typeOn (context.symbol ref) none).outcome = .ok type) :
    Declares context ref type
  | step {ref parent : context.Ref} {type above : TypeDecl}
    (hallowed : context.denies (context.symbol ref) = false)
    (hextends : context.Extends ref parent) (habove : Declares context parent above)
    (htype : (context.typeOn (context.symbol ref) (some above)).outcome = .ok type) :
    Declares context ref type

namespace Declares

/-- A symbol declares no more than one type. -/
theorem unique {other : TypeDecl} (h : context.Declares ref type)
    (hother : context.Declares ref other) : type = other := by
  induction h generalizing other with
  | top hallowed hparent htype =>
    cases hother with
    | top _ _ htype' => exact Except.ok.inj (htype.symm.trans htype')
    | step _ hextends => exact absurd hparent hextends.ne_none
  | step hallowed hextends habove htype ih =>
    cases hother with
    | top _ hparent => exact absurd hparent hextends.ne_none
    | step _ hextends' habove' htype' =>
      obtain rfl := hextends.unique hextends'
      obtain rfl := ih habove'
      exact Except.ok.inj (htype.symm.trans htype')

/-- A type is built from the symbol that declares it, on top of its parent. -/
theorem typeOn_eq (h : context.Declares ref type) (hindexed : context.Indexed) :
    (context.typeOn (context.symbol ref) type.parent?).outcome = .ok type := by
  cases h with
  | top _ _ htype => rwa [parent?_of_typeOn hindexed htype]
  | step _ _ _ htype => rwa [parent?_of_typeOn hindexed htype]

/-- A symbol declares a type of its own name. -/
theorem foreign_eq (h : context.Declares ref type) (hindexed : context.Indexed) :
    type.ident.foreign = (context.symbol ref).name :=
  congrArg Ident.foreign (ident_of_typeOn hindexed (h.typeOn_eq hindexed))

theorem not_denied (h : context.Declares ref type) :
    context.denies (context.symbol ref) = false := by
  cases h with
  | top hallowed => exact hallowed
  | step hallowed => exact hallowed

theorem of_extends (h : context.Declares ref type) (hextends : context.Extends ref parent) :
    ∃ above, context.Declares parent above := by
  cases h with
  | top _ hparent => exact absurd hparent hextends.ne_none
  | step _ hextends' habove =>
    obtain rfl := hextends.unique hextends'
    exact ⟨_, habove⟩

/-- Whoever declares a type and has a parent extends a class or an interface. -/
theorem classify_parent {foreign : ForeignType} (h : context.Declares ref type)
    (hparent : (context.symbol ref).parent = some foreign) :
    ∃ parent, context.table.classify foreign = .classLike parent := by
  cases h with
  | top _ hnone => exact absurd (hparent.symm.trans hnone) (Option.some_ne_none _)
  | step _ hextends =>
    obtain ⟨name, hnamed, hlookup⟩ := hextends
    obtain rfl : foreign = .named name := Option.some.inj (hparent.symm.trans hnamed)
    exact ⟨_, SymbolTable.classify_eq_classLike_iff.mpr ⟨name, rfl, hlookup⟩⟩

/-- **Who declares a type does not stand above itself.** -/
theorem not_transGen (h : context.Declares ref type) :
    ¬ Relation.TransGen context.Extends ref ref := by
  induction h with
  | top _ hparent =>
    intro hloop
    obtain ⟨other, hextends, -⟩ := Relation.TransGen.head'_iff.mp hloop
    exact hextends.ne_none hparent
  | step _ hextends habove htype ih =>
    intro hloop
    obtain ⟨other, hextends', hback⟩ := Relation.TransGen.head'_iff.mp hloop
    obtain rfl := hextends.unique hextends'
    -- a circle through the symbol goes through its parent, which declares a type as well
    exact ih (Relation.TransGen.tail' hback hextends)

/-- **The chain of a type is the way up** from the symbol that declares it, and no symbol of
the way is denied. -/
theorem exists_ascent (h : context.Declares ref type) (hindexed : context.Indexed) :
    ∃ walk, context.Ascent ref walk ∧
      (∀ other ∈ walk, context.denies (context.symbol other) = false) ∧
      type.chain.map (·.ident) =
        walk.map fun other => context.ident (context.symbol other).name := by
  induction h with
  | top hallowed hparent htype =>
    refine ⟨_, .top hparent, fun other hmem => ?_, ?_⟩
    · rwa [List.mem_singleton.mp hmem]
    · rw [chain_eq_of_parent?_eq_none (parent?_of_typeOn hindexed htype)]
      exact congrArg (fun ident => [ident]) (ident_of_typeOn hindexed htype)
  | step hallowed hextends habove htype ih =>
    obtain ⟨walk, hwalk, hnone, hchain⟩ := ih
    refine ⟨_, .step hextends hwalk, fun other hmem => ?_, ?_⟩
    · rcases List.mem_cons.mp hmem with rfl | hmem
      · exact hallowed
      · exact hnone other hmem
    · rw [chain_eq_of_parent?_eq_some (parent?_of_typeOn hindexed htype), List.map_cons,
        List.map_cons, hchain]
      exact congrArg (fun ident => ident :: _) (ident_of_typeOn hindexed htype)

end Declares

/-- **What can be built** from a symbol: a type, if the way up from it ends and meets no denied
symbol. -/
theorem exists_declares_iff (hindexed : context.Indexed) : (∃ type, context.Declares ref type) ↔
    ∃ walk, context.Ascent ref walk ∧
      ∀ other ∈ walk, context.denies (context.symbol other) = false := by
  constructor
  · rintro ⟨type, htype⟩
    obtain ⟨walk, hwalk, hnone, -⟩ := htype.exists_ascent hindexed
    exact ⟨walk, hwalk, hnone⟩
  · rintro ⟨walk, hwalk, hnone⟩
    induction hwalk with
    | @top ref hparent =>
      obtain ⟨type, htype⟩ := exists_typeOn hindexed (context.symbol ref) none
      exact ⟨type, .top (hnone ref List.mem_cons_self) hparent htype⟩
    | @step ref parent walk hextends hwalk ih =>
      obtain ⟨above, habove⟩ := ih fun other hmem => hnone other (List.mem_cons_of_mem _ hmem)
      obtain ⟨type, htype⟩ := exists_typeOn hindexed (context.symbol ref) (some above)
      exact ⟨type, .step (hnone ref List.mem_cons_self) hextends habove htype⟩

end Bindery.Assembly.Context
