import Bindery.Proofs.Assembly.Request

/-!
# What is known is right

Two things are kept by every request. The list of built types and the memo tell the same
(`Bindery.Assembly.State.Consistent`). And if only first types of their names are asked for,
then what is known of a name is right (`Bindery.Assembly.State.Right`): a type that was built
is the one that the first type of the name declares, and where nothing could be built, nothing
is declared.

The delicate case is that of a type under construction, for which a request is refused. This is
right as long as all types under construction **lead to** the symbol that is asked for
(`Bindery.Assembly.State.LeadsTo`), as each of them waits for its parent: the symbol then
stands above itself, and declares no type.
-/

namespace Bindery.Assembly

open Decl (TypeDecl)

variable {context : Context} {state state' : State context.table.size} {ref : context.Ref}
  {name : String} {progress : Progress} {type : TypeDecl} {outcome : Except Failure TypeDecl}

/-! ### The list and the memo -/

/-- **The list of built types and the memo tell the same.** -/
structure State.Consistent {n : ℕ} (state : State n) : Prop where
  foreign_eq : ∀ {name : String} {type : TypeDecl},
    state.memo[name]? = some (.built type) → type.ident.foreign = name
  mem_built_iff : ∀ type : TypeDecl, type ∈ state.built ↔
    state.memo[type.ident.foreign]? = some (.built type)

theorem open_of_none (h : state.memo[name]? = none) :
    ∀ type, state.memo[name]? ≠ some (.built type) := by
  intro type hbuilt
  exact nomatch h.symm.trans hbuilt

theorem open_of_underConstruction (h : state.memo[name]? = some .underConstruction) :
    ∀ type, state.memo[name]? ≠ some (.built type) := by
  intro type hbuilt
  exact nomatch h.symm.trans hbuilt

theorem memo_opening_self : (state.opening name ref).memo[name]? = some .underConstruction := by
  rw [State.getElem?_memo_opening, if_pos rfl]

namespace State.Consistent

theorem initial (n : ℕ) : (State.initial n).Consistent where
  foreign_eq := fun h => by simp [State.initial] at h
  mem_built_iff := fun type => by simp [State.initial]

/-- Something else becomes known of a type that was not built. -/
theorem mark (h : state.Consistent) (hopen : ∀ type, state.memo[name]? ≠ some (.built type))
    (hprogress : ∀ type, progress ≠ .built type) : (state.mark name progress).Consistent where
  foreign_eq := by
    intro name' type hbuilt
    rcases memo_of_mark hbuilt with ⟨-, heq⟩ | ⟨-, hbuilt⟩
    · exact absurd heq (hprogress type)
    · exact h.foreign_eq hbuilt
  mem_built_iff := by
    intro type
    rw [getElem?_memo_mark]
    split
    · next heq =>
      have hnot : type ∉ state.built := fun hmem =>
        hopen type (heq ▸ (h.mem_built_iff type).mp hmem)
      exact iff_of_false hnot fun hbuilt => hprogress type (Option.some.inj hbuilt)
    · exact h.mem_built_iff type

theorem declare (h : state.Consistent) : (state.declare name ref).Consistent :=
  ⟨h.foreign_eq, h.mem_built_iff⟩

theorem take (h : state.Consistent) (notes : Notes context.table.size) :
    (state.take notes).Consistent :=
  ⟨h.foreign_eq, h.mem_built_iff⟩

theorem opening (h : state.Consistent) (hnew : state.memo[name]? = none) :
    (state.opening name ref).Consistent :=
  h.declare.mark (open_of_none hnew) fun _ heq => nomatch heq

/-- A type is built. -/
theorem enter (h : state.Consistent) (hopen : ∀ type, state.memo[name]? ≠ some (.built type))
    (hname : type.ident.foreign = name) : (state.enter name type).Consistent where
  foreign_eq := by
    intro name' other hbuilt
    rcases memo_of_enter hbuilt with ⟨rfl, ⟨⟩⟩ | ⟨-, hbuilt⟩
    · exact hname
    · exact h.foreign_eq hbuilt
  mem_built_iff := by
    intro other
    rw [getElem?_memo_enter]
    change other ∈ state.built.push type ↔ _
    rw [Array.mem_push, h.mem_built_iff]
    split
    · next heq =>
      -- no type of this name was built before
      rw [← heq, or_iff_right (hopen other)]
      exact ⟨fun h => h ▸ rfl, fun h => (Progress.built.inj (Option.some.inj h)).symm⟩
    · next hne =>
      refine or_iff_left fun heq => ?_
      exact hne (heq ▸ hname.symm)

end State.Consistent

/-- **A request keeps the list and the memo alike.** -/
theorem Context.Builds.consistent (h : context.Builds state ref outcome state')
    (hindexed : context.Indexed) (hstate : state.Consistent) : state'.Consistent := by
  induction h with
  | known => exact hstate
  | denied hnew =>
    exact hstate.declare.mark (open_of_none hnew) fun _ heq => nomatch heq
  | unfit hnew =>
    exact (hstate.opening hnew).mark (open_of_underConstruction memo_opening_self)
      fun _ heq => nomatch heq
  | orphan hnew _ _ hbuild ih =>
    exact (ih (hstate.opening hnew)).mark
      (open_of_underConstruction (hbuild.memo_eq memo_opening_self)) fun _ heq => nomatch heq
  | top hnew _ _ htype =>
    refine ((hstate.opening hnew).take _).enter (open_of_underConstruction memo_opening_self) ?_
    rw [ident_of_typeOn hindexed htype]
    rfl
  | child hnew _ _ hbuild htype ih =>
    refine ((ih (hstate.opening hnew)).take _).enter
      (open_of_underConstruction (hbuild.memo_eq memo_opening_self)) ?_
    rw [ident_of_typeOn hindexed htype]
    rfl

/-! ### Who declares what is known -/

/-- **Whatever is known of was asked for** by the first type of its name, and nothing else was
asked for. -/
def State.Attributed (context : Context) (state : State context.table.size) : Prop :=
  ∀ name, state.declaredBy[name]? =
    state.memo[name]?.bind fun _ => context.table.lookupType? name

namespace State.Attributed

theorem initial : (State.initial context.table.size).Attributed context := fun name => by
  simp [State.initial]

theorem take (h : state.Attributed context) (notes : Notes context.table.size) :
    (state.take notes).Attributed context := h

/-- Something becomes known of a type that was asked for just now. -/
theorem declare_mark (h : state.Attributed context) (hfirst : context.IsFirst ref)
    (progress : Progress) :
    ((state.declare (context.symbol ref).name ref).mark (context.symbol ref).name
      progress).Attributed context := by
  intro name
  change (state.declaredBy.insert _ ref)[name]? = _
  rw [Std.TreeMap.getElem?_insert, getElem?_memo_mark, memo_declare]
  simp only [Std.compare_eq_iff_eq]
  split
  · next heq =>
    subst heq
    exact hfirst.symm
  · exact h name

/-- Something else becomes known of a type. -/
theorem mark (h : state.Attributed context) (hknown : state.memo[name]? = some .underConstruction)
    (progress : Progress) : (state.mark name progress).Attributed context := by
  intro name'
  change state.declaredBy[name']? = _
  rw [h name', getElem?_memo_mark]
  split
  · next heq =>
    subst heq
    rw [hknown]
    rfl
  · rfl

end State.Attributed

/-- **A request by the first type of a name** keeps track of who declares what. -/
theorem Context.Builds.attributed (h : context.Builds state ref outcome state')
    (hindexed : context.Indexed) (hfirst : context.IsFirst ref)
    (hstate : state.Attributed context) : state'.Attributed context := by
  induction h with
  | known => exact hstate
  | denied => exact hstate.declare_mark hfirst _
  | unfit => exact (hstate.declare_mark hfirst _).mark memo_opening_self _
  | orphan _ _ hextends hbuild ih =>
    exact (ih (hextends.isFirst hindexed) (hstate.declare_mark hfirst _)).mark
      (hbuild.memo_eq memo_opening_self) _
  | top =>
    have htaken := (hstate.declare_mark hfirst .underConstruction).take
    exact (htaken _).mark memo_opening_self _
  | child _ _ hextends hbuild _ ih =>
    have htaken := (ih (hextends.isFirst hindexed) (hstate.declare_mark hfirst _)).take
    exact (htaken _).mark (hbuild.memo_eq memo_opening_self) _

/-! ### What is known of a name -/

/-- **What is known of a name is right**: the type that was built is the one that the first type
of the name declares, and where none can be built, none is declared. -/
structure State.Right (context : Context) (state : State context.table.size) : Prop where
  declares_of_built : ∀ {name : String} {type : TypeDecl}, state.memo[name]? = some (.built type) →
    ∃ ref, context.table.lookupType? name = some ref ∧ context.Declares ref type
  not_declares : ∀ {name : String} {ref : context.Ref}, state.memo[name]? = some .unbuildable →
    context.table.lookupType? name = some ref → ∀ type, ¬ context.Declares ref type

namespace State.Right

theorem initial : (State.initial context.table.size).Right context where
  declares_of_built := fun h => by simp [State.initial] at h
  not_declares := fun h => by simp [State.initial] at h

theorem declare (h : state.Right context) : (state.declare name ref).Right context :=
  ⟨h.declares_of_built, h.not_declares⟩

theorem take (h : state.Right context) (notes : Notes context.table.size) :
    (state.take notes).Right context :=
  ⟨h.declares_of_built, h.not_declares⟩

theorem opening (h : state.Right context) : (state.opening name ref).Right context where
  declares_of_built := by
    intro name' type hbuilt
    rcases memo_of_opening hbuilt with ⟨-, ⟨⟩⟩ | ⟨-, hbuilt⟩
    exact h.declares_of_built hbuilt
  not_declares := by
    intro name' ref hnone
    rcases memo_of_opening hnone with ⟨-, ⟨⟩⟩ | ⟨-, hnone⟩
    exact h.not_declares hnone

/-- A type turns out not to be declared. -/
theorem refuse (h : state.Right context) (hfirst : context.IsFirst ref)
    (hnone : ∀ type, ¬ context.Declares ref type) :
    (state.mark (context.symbol ref).name .unbuildable).Right context where
  declares_of_built := by
    intro name type hbuilt
    rcases memo_of_mark hbuilt with ⟨-, ⟨⟩⟩ | ⟨-, hbuilt⟩
    exact h.declares_of_built hbuilt
  not_declares := by
    intro name other hunbuildable hlookup
    rcases memo_of_mark hunbuildable with ⟨rfl, -⟩ | ⟨-, hunbuildable⟩
    · obtain rfl : ref = other := Option.some.inj (hfirst.symm.trans hlookup)
      exact hnone
    · exact h.not_declares hunbuildable hlookup

/-- A type turns out to be declared. -/
theorem enter (h : state.Right context) (hfirst : context.IsFirst ref)
    (htype : context.Declares ref type) :
    (state.enter (context.symbol ref).name type).Right context where
  declares_of_built := by
    intro name other hbuilt
    rcases memo_of_enter hbuilt with ⟨rfl, ⟨⟩⟩ | ⟨-, hbuilt⟩
    · exact ⟨ref, hfirst, htype⟩
    · exact h.declares_of_built hbuilt
  not_declares := by
    intro name other hnone
    rcases memo_of_enter hnone with ⟨-, ⟨⟩⟩ | ⟨-, hnone⟩
    exact h.not_declares hnone

end State.Right

/-- **All types under construction lead to a symbol**: it stands above the first type of each of
their names. -/
def State.LeadsTo (context : Context) (state : State context.table.size) (ref : context.Ref) :
    Prop :=
  ∀ name, state.memo[name]? = some .underConstruction →
    ∃ other, context.table.lookupType? name = some other ∧
      Relation.TransGen context.Extends other ref

/-- A type that waits for its parent leads to it, and so do those that wait for this type. -/
theorem State.LeadsTo.opening {parent : context.Ref} (h : state.LeadsTo context ref)
    (hfirst : context.IsFirst ref) (hextends : context.Extends ref parent) :
    (state.opening (context.symbol ref).name ref).LeadsTo context parent := by
  intro name hopen
  rcases memo_of_opening hopen with ⟨rfl, -⟩ | ⟨-, hopen⟩
  · exact ⟨ref, hfirst, .single hextends⟩
  · obtain ⟨other, hlookup, hleads⟩ := h name hopen
    exact ⟨other, hlookup, hleads.tail hextends⟩

namespace Context

/-- **The answer to a request is right.** -/
def Answers (context : Context) (ref : context.Ref) : Except Failure TypeDecl → Prop
  | .ok type => context.Declares ref type
  | .error _ => ∀ type, ¬ context.Declares ref type

/-- What is known of the name of a symbol is the answer to a request by it. -/
theorem answers_of_known (hstate : state.Right context) (hfirst : context.IsFirst ref)
    (hleads : state.LeadsTo context ref)
    (hknown : state.memo[(context.symbol ref).name]? = some progress) :
    context.Answers ref (progress.answer (context.symbol ref).name) := by
  cases progress with
  | built type =>
    obtain ⟨other, hlookup, htype⟩ := hstate.declares_of_built hknown
    obtain rfl : ref = other := Option.some.inj (hfirst.symm.trans hlookup)
    exact htype
  | unbuildable => exact hstate.not_declares hknown hfirst
  | underConstruction =>
    -- the type waits for itself, and the refusal is right as its way up never ends
    obtain ⟨other, hlookup, hloop⟩ := hleads _ hknown
    obtain rfl : ref = other := Option.some.inj (hfirst.symm.trans hlookup)
    exact fun type htype => htype.not_transGen hloop

/-- **A request by the first type of a name** is answered rightly, and what is known stays right,
if all types under construction lead to that symbol. -/
theorem Builds.right (h : context.Builds state ref outcome state') (hindexed : context.Indexed)
    (hfirst : context.IsFirst ref) (hleads : state.LeadsTo context ref)
    (hstate : state.Right context) : state'.Right context ∧ context.Answers ref outcome := by
  induction h with
  | known hknown => exact ⟨hstate, answers_of_known hstate hfirst hleads hknown⟩
  | @denied _ ref _ hdenied =>
    have hnone : ∀ type, ¬ context.Declares ref type := fun type htype =>
      Bool.false_ne_true (htype.not_denied.symm.trans hdenied)
    exact ⟨hstate.declare.refuse hfirst hnone, hnone⟩
  | @unfit _ ref _ _ _ hparent hunfit =>
    have hnone : ∀ type, ¬ context.Declares ref type := by
      intro type htype
      obtain ⟨parent, hclass⟩ := htype.classify_parent hparent
      exact hunfit parent hclass
    exact ⟨hstate.opening.refuse hfirst hnone, hnone⟩
  | @orphan _ _ ref _ _ _ _ hextends hbuild ih =>
    obtain ⟨hright, hanswer⟩ :=
      ih (hextends.isFirst hindexed) (hleads.opening hfirst hextends) hstate.opening
    have hnone : ∀ type, ¬ context.Declares ref type := by
      intro type htype
      obtain ⟨above, habove⟩ := htype.of_extends hextends
      exact hanswer above habove
    exact ⟨hright.refuse hfirst hnone, hnone⟩
  | top _ hallowed hparent htype =>
    have hdeclares := Declares.top hallowed hparent htype
    exact ⟨(hstate.opening.take _).enter hfirst hdeclares, hdeclares⟩
  | child _ hallowed hextends hbuild htype ih =>
    obtain ⟨hright, hanswer⟩ :=
      ih (hextends.isFirst hindexed) (hleads.opening hfirst hextends) hstate.opening
    have hdeclares := Declares.step hallowed hextends hanswer htype
    exact ⟨(hright.take _).enter hfirst hdeclares, hdeclares⟩

end Context

end Bindery.Assembly
