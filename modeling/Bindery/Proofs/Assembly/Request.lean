import Bindery.Assembly.Types
import Bindery.Proofs.Assembly.Ascent

/-!
# What a request does

A request for a type ends in one of six ways, which `Bindery.Assembly.Context.Builds` lists
together with what each of them leaves in the state: something is **known** of the type, it is
**denied**, its parent is **unfit** or could not be built, or the type is built, with or
without a parent. `Bindery.Assembly.Context.builds` says that `Bindery.Assembly.Context.build`
ends in one of these ways, so a property of all requests is proved by one induction, with a
case for each way.

A request leaves alone what is known of other types (`Bindery.Assembly.Context.Builds.memo_eq`)
and answers with what it leaves in the memo
(`Bindery.Assembly.Context.Builds.memo_of_ok`).
-/

namespace Bindery.Assembly

open Decl (TypeDecl)

/-! ### The parts of a state -/

namespace State

variable {n : ℕ} {state : State n} {name name' : String} {progress : Progress} {ref : Fin n}
  {report : Report} {notes : Notes n} {type : TypeDecl}

/-- The state while a type waits for its parent. -/
def opening (state : State n) (name : String) (ref : Fin n) : State n :=
  (state.declare name ref).mark name .underConstruction

/-- The state after a type was built. -/
def enter (state : State n) (name : String) (type : TypeDecl) : State n :=
  { (state.mark name (.built type)).tell (.debug ("built type " ++ name)) with
    built := state.built.push type }

theorem getElem?_memo_mark : (state.mark name progress).memo[name']? =
    if name = name' then some progress else state.memo[name']? := by
  rw [mark, Std.TreeMap.getElem?_insert]
  simp only [Std.compare_eq_iff_eq]

@[simp] theorem memo_declare : (state.declare name ref).memo = state.memo := rfl

@[simp] theorem memo_tell : (state.tell report).memo = state.memo := rfl

@[simp] theorem memo_take : (state.take notes).memo = state.memo := rfl

/-- What is known after something was noted of a type: this, or what was known before. -/
theorem memo_of_mark {known : Progress}
    (h : (state.mark name progress).memo[name']? = some known) :
    name = name' ∧ progress = known ∨ name ≠ name' ∧ state.memo[name']? = some known := by
  rw [getElem?_memo_mark] at h
  split at h
  · next heq => exact Or.inl ⟨heq, Option.some.inj h⟩
  · next hne => exact Or.inr ⟨hne, h⟩

theorem memo_of_opening {known : Progress}
    (h : (state.opening name ref).memo[name']? = some known) :
    name = name' ∧ .underConstruction = known ∨ name ≠ name' ∧ state.memo[name']? = some known :=
  memo_of_mark h

theorem memo_of_enter {known : Progress} (h : (state.enter name type).memo[name']? = some known) :
    name = name' ∧ .built type = known ∨ name ≠ name' ∧ state.memo[name']? = some known :=
  memo_of_mark h

theorem getElem?_memo_opening : (state.opening name ref).memo[name']? =
    if name = name' then some .underConstruction else state.memo[name']? :=
  getElem?_memo_mark

theorem getElem?_memo_enter : (state.enter name type).memo[name']? =
    if name = name' then some (.built type) else state.memo[name']? :=
  getElem?_memo_mark

end State

namespace Context

variable {context : Context}

/-! ### The ways in which a request ends -/

/-- **What a request does**: the ways in which it ends, and what it leaves in the state. -/
inductive Builds (context : Context) : State context.table.size → context.Ref →
    Except Failure TypeDecl → State context.table.size → Prop
  /-- Something is known of the type. -/
  | known {state : State context.table.size} {ref : context.Ref} {progress : Progress}
    (hknown : state.memo[(context.symbol ref).name]? = some progress) :
    Builds context state ref (progress.answer (context.symbol ref).name) state
  /-- The configuration leaves the type out. -/
  | denied {state : State context.table.size} {ref : context.Ref}
    (hnew : state.memo[(context.symbol ref).name]? = none)
    (hdenied : context.denies (context.symbol ref) = true) :
    Builds context state ref (.error (.refused (context.symbol ref).name .denied))
      ((state.declare (context.symbol ref).name ref).mark (context.symbol ref).name .unbuildable)
  /-- The parent is neither a class nor an interface. -/
  | unfit {state : State context.table.size} {ref : context.Ref} {type : ForeignType}
    (hnew : state.memo[(context.symbol ref).name]? = none)
    (hallowed : context.denies (context.symbol ref) = false)
    (hparent : (context.symbol ref).parent = some type)
    (hunfit : ∀ parent, context.table.classify type ≠ .classLike parent) :
    Builds context state ref (.error (.refused (context.symbol ref).name (.unfitParent type.text)))
      ((state.opening (context.symbol ref).name ref).mark (context.symbol ref).name .unbuildable)
  /-- The parent could not be built. -/
  | orphan {state state' : State context.table.size} {ref parent : context.Ref} {failure : Failure}
    (hnew : state.memo[(context.symbol ref).name]? = none)
    (hallowed : context.denies (context.symbol ref) = false)
    (hextends : context.Extends ref parent)
    (hbuild : Builds context (state.opening (context.symbol ref).name ref) parent
      (.error failure) state') :
    Builds context state ref (.error failure) (state'.mark (context.symbol ref).name .unbuildable)
  /-- The type is built, and there is no parent. -/
  | top {state : State context.table.size} {ref : context.Ref} {type : TypeDecl}
    (hnew : state.memo[(context.symbol ref).name]? = none)
    (hallowed : context.denies (context.symbol ref) = false)
    (hparent : (context.symbol ref).parent = none)
    (htype : (context.typeOn (context.symbol ref) none).outcome = .ok type) :
    Builds context state ref (.ok type)
      (((state.opening (context.symbol ref).name ref).take
        (context.typeOn (context.symbol ref) none).notes).enter (context.symbol ref).name type)
  /-- The type is built on top of its parent. -/
  | child {state state' : State context.table.size} {ref parent : context.Ref}
    {above type : TypeDecl}
    (hnew : state.memo[(context.symbol ref).name]? = none)
    (hallowed : context.denies (context.symbol ref) = false)
    (hextends : context.Extends ref parent)
    (hbuild : Builds context (state.opening (context.symbol ref).name ref) parent
      (.ok above) state')
    (htype : (context.typeOn (context.symbol ref) (some above)).outcome = .ok type) :
    Builds context state ref (.ok type)
      ((state'.take (context.typeOn (context.symbol ref) (some above)).notes).enter
        (context.symbol ref).name type)

theorem conclude_buildOn_ok {symbol : Symbol} {parent : Option TypeDecl} {type : TypeDecl}
    {state : State context.table.size} (htype : (context.typeOn symbol parent).outcome = .ok type) :
    State.conclude symbol.name (context.buildOn symbol (.ok parent, state)) =
      (.ok type, (state.take (context.typeOn symbol parent).notes).enter symbol.name type) := by
  rw [buildOn, htype]
  rfl

/-- **A request ends in one of these ways.** -/
theorem builds (hindexed : context.Indexed) (state : State context.table.size)
    (ref : context.Ref) :
    context.Builds state ref (context.build state ref).1 (context.build state ref).2 := by
  fun_induction build context state ref with
  | case1 state ref symbol progress hmemo => exact .known hmemo
  | case2 state ref symbol hmemo state' hdenied => exact .denied hmemo hdenied
  | case3 state ref symbol hmemo state' hdenied state'' parent ih =>
    rw [Bool.not_eq_true] at hdenied
    simp only [parent]
    split
    · next hparent =>
      obtain ⟨type, htype⟩ := exists_typeOn hindexed symbol none
      rw [conclude_buildOn_ok htype]
      exact .top hmemo hdenied hparent htype
    · next type hparent =>
      split
      · next above hclass =>
        have hbuild := ih above
        obtain ⟨name, rfl, hlookup⟩ := SymbolTable.classify_eq_classLike_iff.mp hclass
        have hextends : context.Extends ref above := ⟨name, hparent, hlookup⟩
        rcases hresult : context.build state'' above with ⟨failure | type, last⟩
        · rw [hresult] at hbuild
          exact .orphan hmemo hdenied hextends hbuild
        · rw [hresult] at hbuild
          obtain ⟨own, hown⟩ := exists_typeOn hindexed symbol (some type)
          -- the parent is there, so this is the type on top of it
          change context.Builds state ref (State.conclude symbol.name
            (context.buildOn symbol (.ok (some type), last))).1 (State.conclude symbol.name
              (context.buildOn symbol (.ok (some type), last))).2
          rw [conclude_buildOn_ok hown]
          exact .child hmemo hdenied hextends hbuild hown
      · next hunfit =>
        exact .unfit hmemo hdenied hparent hunfit

section Unique

variable {state state' : State context.table.size} {ref : context.Ref}

theorem build_of_known {progress : Progress}
    (hknown : state.memo[(context.symbol ref).name]? = some progress) :
    context.build state ref = (progress.answer (context.symbol ref).name, state) := by
  rw [build]
  split
  · next other heq =>
    obtain rfl := Option.some.inj (hknown.symm.trans heq)
    rfl
  · next heq => exact nomatch hknown.symm.trans heq

theorem build_of_denied (hnew : state.memo[(context.symbol ref).name]? = none)
    (hdenied : context.denies (context.symbol ref) = true) :
    context.build state ref = State.conclude (context.symbol ref).name
      (.error (.refused (context.symbol ref).name .denied),
        state.declare (context.symbol ref).name ref) := by
  rw [build]
  split
  · next heq => exact nomatch hnew.symm.trans heq
  · rw [if_pos hdenied]

theorem build_of_allowed (hnew : state.memo[(context.symbol ref).name]? = none)
    (hallowed : context.denies (context.symbol ref) = false) :
    context.build state ref = State.conclude (context.symbol ref).name
      (context.buildOn (context.symbol ref)
        (match (context.symbol ref).parent with
        | none => (.ok none, state.opening (context.symbol ref).name ref)
        | some type =>
          match context.table.classify type with
          | .classLike parent =>
            ((context.build (state.opening (context.symbol ref).name ref) parent).1.map some,
              (context.build (state.opening (context.symbol ref).name ref) parent).2)
          | _ => (.error (.refused (context.symbol ref).name (.unfitParent type.text)),
              state.opening (context.symbol ref).name ref))) := by
  rw [build]
  split
  · next heq => exact nomatch hnew.symm.trans heq
  · rw [if_neg (Bool.eq_false_iff.mp hallowed)]
    rfl

/-- **A request has one way to end.** -/
theorem Builds.build_eq {outcome : Except Failure TypeDecl}
    (h : context.Builds state ref outcome state') :
    context.build state ref = (outcome, state') := by
  induction h with
  | known hknown => exact build_of_known hknown
  | denied hnew hdenied => exact build_of_denied hnew hdenied
  | unfit hnew hallowed hparent hunfit =>
    rw [build_of_allowed hnew hallowed, hparent]
    split
    · next heq => exact absurd heq (Option.some_ne_none _)
    · next heq =>
      obtain rfl := Option.some.inj heq
      split
      · next parent hclass => exact absurd hclass (hunfit parent)
      · rfl
  | orphan hnew hallowed hextends _ ih =>
    obtain ⟨name, hparent, hlookup⟩ := hextends
    rw [build_of_allowed hnew hallowed, hparent]
    simp only [SymbolTable.classify_eq_classLike_iff.mpr ⟨name, rfl, hlookup⟩, ih]
    rfl
  | top hnew hallowed hparent htype =>
    rw [build_of_allowed hnew hallowed, hparent]
    exact conclude_buildOn_ok htype
  | child hnew hallowed hextends _ htype ih =>
    obtain ⟨name, hparent, hlookup⟩ := hextends
    rw [build_of_allowed hnew hallowed, hparent]
    simp only [SymbolTable.classify_eq_classLike_iff.mpr ⟨name, rfl, hlookup⟩, ih]
    exact conclude_buildOn_ok htype

end Unique

/-! ### What is left alone -/

section Frame

variable {state state' : State context.table.size} {ref : context.Ref}
  {outcome : Except Failure TypeDecl} {name : String} {progress : Progress} {type : TypeDecl}

theorem ne_of_memo {name' : String} (hnew : state.memo[name]? = none)
    (hknown : state.memo[name']? = some progress) : name ≠ name' := by
  rintro rfl
  exact absurd (hnew.symm.trans hknown) (Option.some_ne_none _).symm

theorem memo_mark_of_memo {name' : String} {progress' : Progress}
    (hnew : state.memo[name]? = none) (hknown : state.memo[name']? = some progress)
    (hlater : state'.memo[name']? = some progress) :
    (state'.mark name progress').memo[name']? = some progress := by
  rw [State.getElem?_memo_mark, if_neg (ne_of_memo hnew hknown), hlater]

theorem memo_opening_of_memo {name' : String} (hnew : state.memo[name]? = none)
    (hknown : state.memo[name']? = some progress) :
    (state.opening name ref).memo[name']? = some progress :=
  memo_mark_of_memo hnew hknown hknown

/-- **What is known of a type stays as it is.** -/
theorem Builds.memo_eq (h : context.Builds state ref outcome state')
    (hknown : state.memo[name]? = some progress) : state'.memo[name]? = some progress := by
  induction h with
  | known => exact hknown
  | denied hnew => exact memo_mark_of_memo hnew hknown hknown
  | unfit hnew => exact memo_mark_of_memo hnew hknown (memo_opening_of_memo hnew hknown)
  | orphan hnew _ _ _ ih =>
    exact memo_mark_of_memo hnew hknown (ih (memo_opening_of_memo hnew hknown))
  | top hnew => exact memo_mark_of_memo hnew hknown (memo_opening_of_memo hnew hknown)
  | child hnew _ _ _ _ ih =>
    exact memo_mark_of_memo hnew hknown (ih (memo_opening_of_memo hnew hknown))

/-- **A type that a request answers with** is in the memo. -/
theorem Builds.memo_of_ok (h : context.Builds state ref outcome state')
    (hok : outcome = .ok type) :
    state'.memo[(context.symbol ref).name]? = some (.built type) := by
  cases h with
  | @known _ _ progress hknown =>
    cases progress with
    | built other =>
      obtain rfl := Except.ok.inj hok
      exact hknown
    | unbuildable => exact nomatch hok
    | underConstruction => exact nomatch hok
  | denied => exact nomatch hok
  | unfit => exact nomatch hok
  | orphan => exact nomatch hok
  | top =>
    obtain rfl := Except.ok.inj hok
    rw [State.getElem?_memo_enter, if_pos rfl]
  | child =>
    obtain rfl := Except.ok.inj hok
    rw [State.getElem?_memo_enter, if_pos rfl]

/-- A request only fails in ways that can be done without. -/
theorem Builds.isRecoverable (h : context.Builds state ref outcome state') {failure : Failure}
    (herror : outcome = .error failure) : failure.isRecoverable = true := by
  induction h with
  | @known _ _ progress =>
    cases progress with
    | built => exact nomatch herror
    | unbuildable =>
      obtain rfl := Except.error.inj herror
      rfl
    | underConstruction =>
      obtain rfl := Except.error.inj herror
      rfl
  | denied =>
    obtain rfl := Except.error.inj herror
    rfl
  | unfit =>
    obtain rfl := Except.error.inj herror
    rfl
  | orphan _ _ _ _ ih => exact ih herror
  | top => exact nomatch herror
  | child => exact nomatch herror

theorem underConstruction_of_opening {name' : String} (hne : name ≠ name')
    (hopen : (state.opening name ref).memo[name']? = some .underConstruction) :
    state.memo[name']? = some .underConstruction := by
  rcases State.memo_of_opening hopen with ⟨heq, -⟩ | ⟨-, hopen⟩
  · exact absurd heq hne
  · exact hopen

/-- **A request leaves no type under construction** that was not so before. -/
theorem Builds.underConstruction_iff (h : context.Builds state ref outcome state') :
    state'.memo[name]? = some .underConstruction ↔
      state.memo[name]? = some .underConstruction := by
  refine ⟨fun hopen => ?_, h.memo_eq⟩
  induction h with
  | known => exact hopen
  | denied =>
    rcases State.memo_of_mark hopen with ⟨-, ⟨⟩⟩ | ⟨-, hopen⟩
    exact hopen
  | unfit =>
    rcases State.memo_of_mark hopen with ⟨-, ⟨⟩⟩ | ⟨hne, hopen⟩
    exact underConstruction_of_opening hne hopen
  | orphan _ _ _ _ ih =>
    rcases State.memo_of_mark hopen with ⟨-, ⟨⟩⟩ | ⟨hne, hopen⟩
    exact underConstruction_of_opening hne (ih hopen)
  | top =>
    rcases State.memo_of_enter hopen with ⟨-, ⟨⟩⟩ | ⟨hne, hopen⟩
    exact underConstruction_of_opening hne hopen
  | child _ _ _ _ _ ih =>
    rcases State.memo_of_enter hopen with ⟨-, ⟨⟩⟩ | ⟨hne, hopen⟩
    exact underConstruction_of_opening hne (ih hopen)

end Frame

end Context

end Bindery.Assembly
