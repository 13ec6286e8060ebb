import Bindery.Proofs.Assembly.Knowledge
import Bindery.Proofs.Assembly.Shown
import Bindery.Proofs.Assembly.Telling
import Mathlib.Data.List.Forall2

/-!
# Two builds side by side

Two symbol tables that differ only in what their types declare are built in the same way. What
counts as the same is a **likeness** (`Bindery.Assembly.Context.Likeness`): which symbols are
alike, which types, and that alike symbols declare alike types on top of alike parents. One table
**mirrors** another (`Bindery.Assembly.Context.Mirrors`) if the same names mean types in both, and
the types of each name come from symbols that are alike.

A request in one of the tables then ends in the same way as in the other
(`Bindery.Assembly.Context.Mirrors.builds`): it gets a type that is alike or fails for the same
reason, and what is known afterwards is alike (`Bindery.Assembly.Context.Likeness.States`).
-/

namespace Bindery.Assembly.Context

open Decl (TypeDecl)

variable {context other : Context}

/-- Two options are related by equality if they are equal. -/
theorem rel_eq_iff {α : Type} {a b : Option α} : Option.Rel Eq a b ↔ a = b := by
  constructor
  · rintro (heq | _)
    · exact congrArg some heq
    · rfl
  · rintro rfl
    cases a with
    | none => exact .none
    | some a => exact .some rfl

/-! ### A likeness -/

/-- **What counts as the same** in two tables, and what the second one does not tell. -/
structure Likeness (context : Context) where
  symbols : Symbol → Symbol → Prop
  types : TypeDecl → TypeDecl → Prop
  telling : Telling
  /-- What is only told of the first of two symbols that are alike. -/
  taken : Symbol → List Diagnostic
  /-- Symbols that are alike only differ in their members. -/
  eq_with : ∀ {symbol symbol' : Symbol}, symbols symbol symbol' →
    symbol' = { symbol with members := symbol'.members }
  ident_eq : ∀ {type type' : TypeDecl}, types type type' → type'.ident = type.ident
  parent? : ∀ {type type' : TypeDecl}, types type type' →
    Option.Rel types type.parent? type'.parent?
  /-- Symbols that are alike declare types that are alike, on top of such parents. -/
  typeOn : ∀ {symbol symbol' : Symbol} {parent parent' : Option TypeDecl},
    symbols symbol symbol' → Option.Rel types parent parent' → ∃ type type' told told',
      (context.typeOn symbol parent).shown = (.ok type, told) ∧
      (context.typeOn symbol' parent').shown = (.ok type', told') ∧
      types type type' ∧ telling.tells told (taken symbol) told'

namespace Likeness

/-- Types that are the same have the same identifier. -/
theorem ident_eq_of_eq {type type' : TypeDecl} (h : type = type') : type'.ident = type.ident :=
  h ▸ rfl

/-- Types that are the same have the same parent. -/
theorem rel_parent?_of_eq {type type' : TypeDecl} (h : type = type') :
    Option.Rel Eq type.parent? type'.parent? :=
  rel_eq_iff.mpr (congrArg TypeDecl.parent? h)

variable (likeness : context.Likeness)

/-- The same is known of two types. -/
inductive Progresses : Progress → Progress → Prop
  | underConstruction : Progresses .underConstruction .underConstruction
  | unbuildable : Progresses .unbuildable .unbuildable
  | built {type type' : TypeDecl} (h : likeness.types type type') :
    Progresses (.built type) (.built type')

/-- Two requests get types that are alike, or fail for the same reason. -/
inductive Outcomes : Except Failure TypeDecl → Except Failure TypeDecl → Prop
  | ok {type type' : TypeDecl} (h : likeness.types type type') : Outcomes (.ok type) (.ok type')
  | error (failure : Failure) : Outcomes (.error failure) (.error failure)

/-- **What is known is alike**, and the types that were built are alike, in order. -/
structure States {n m : ℕ} (state : State n) (twin : State m) : Prop where
  memo : ∀ name : String, Option.Rel likeness.Progresses state.memo[name]? twin.memo[name]?
  built : List.Forall₂ likeness.types state.built.toList twin.built.toList

variable {likeness}

theorem name_eq {symbol symbol' : Symbol} (h : likeness.symbols symbol symbol') :
    symbol'.name = symbol.name := by
  rw [likeness.eq_with h]

theorem kind_eq {symbol symbol' : Symbol} (h : likeness.symbols symbol symbol') :
    symbol'.kind = symbol.kind := by
  rw [likeness.eq_with h]

theorem parent_eq {symbol symbol' : Symbol} (h : likeness.symbols symbol symbol') :
    symbol'.parent = symbol.parent := by
  rw [likeness.eq_with h]

theorem Progresses.answer {progress progress' : Progress}
    (h : likeness.Progresses progress progress') (name : String) :
    likeness.Outcomes (progress.answer name) (progress'.answer name) := by
  cases h with
  | underConstruction => exact .error _
  | unbuildable => exact .error _
  | built h => exact .ok h

namespace States

variable {n m : ℕ} {state : State n} {twin : State m} {name : String}

theorem initial : likeness.States (State.initial n) (State.initial m) where
  memo := fun name => by
    rw [State.initial, State.initial, Std.TreeMap.getElem?_emptyc]
    exact .none
  built := .nil

theorem mark (h : likeness.States state twin) (name : String) {progress progress' : Progress}
    (hprogress : likeness.Progresses progress progress') :
    likeness.States (state.mark name progress) (twin.mark name progress') where
  memo := by
    intro name'
    rw [State.getElem?_memo_mark, State.getElem?_memo_mark]
    split
    · exact .some hprogress
    · exact h.memo name'
  built := h.built

theorem declare (h : likeness.States state twin) (name : String) (ref : Fin n) (ref' : Fin m) :
    likeness.States (state.declare name ref) (twin.declare name ref') :=
  ⟨h.memo, h.built⟩

theorem opening (h : likeness.States state twin) (name : String) (ref : Fin n) (ref' : Fin m) :
    likeness.States (state.opening name ref) (twin.opening name ref') :=
  (h.declare name ref ref').mark name .underConstruction

theorem take (h : likeness.States state twin) (notes : Notes n) (notes' : Notes m) :
    likeness.States (state.take notes) (twin.take notes') :=
  ⟨h.memo, h.built⟩

theorem tell (h : likeness.States state twin) (report report' : Report) :
    likeness.States (state.tell report) (twin.tell report') :=
  ⟨h.memo, h.built⟩

theorem enter (h : likeness.States state twin) (name : String) {type type' : TypeDecl}
    (htype : likeness.types type type') :
    likeness.States (state.enter name type) (twin.enter name type') where
  memo := (h.mark name (.built htype)).memo
  built := by
    change List.Forall₂ _ (state.built.push type).toList (twin.built.push type').toList
    rw [Array.toList_push, Array.toList_push]
    exact List.rel_append h.built (.cons htype .nil)

theorem memo_eq_none (h : likeness.States state twin) (hnew : state.memo[name]? = none) :
    twin.memo[name]? = none := by
  have hmemo := h.memo name
  rw [hnew] at hmemo
  generalize twin.memo[name]? = progress? at hmemo
  cases hmemo
  rfl

theorem exists_memo (h : likeness.States state twin) {progress : Progress}
    (hknown : state.memo[name]? = some progress) :
    ∃ progress', twin.memo[name]? = some progress' ∧ likeness.Progresses progress progress' := by
  have hmemo := h.memo name
  rw [hknown] at hmemo
  generalize twin.memo[name]? = progress? at hmemo
  obtain ⟨hprogress⟩ := hmemo
  exact ⟨_, rfl, hprogress⟩

end States

end Likeness

/-! ### Tables that mirror each other -/

/-- **A table mirrors another**: the configuration is the same, and the types of each name come
from symbols that are alike. -/
structure Mirrors (other : Context) (likeness : context.Likeness) : Prop where
  indexed : context.Indexed
  indexed' : other.Indexed
  config_eq : other.config = context.config
  named : ∀ name, Option.Rel likeness.symbols (context.typeNamed? name) (other.typeNamed? name)

namespace Mirrors

variable {likeness : context.Likeness} {state state' : State context.table.size}
  {twin : State other.table.size} {ref parent : context.Ref} {ref' : other.Ref} {name : String}
  {outcome : Except Failure TypeDecl}

variable (h : Mirrors other likeness)

include h

theorem exists_lookup (hlookup : context.table.lookupType? name = some ref) :
    ∃ ref', other.table.lookupType? name = some ref' ∧
      likeness.symbols (context.symbol ref) (other.symbol ref') := by
  have hnamed := h.named name
  rw [typeNamed?, typeNamed?, hlookup] at hnamed
  cases hlookup' : other.table.lookupType? name with
  | none =>
    rw [hlookup'] at hnamed
    cases hnamed
  | some ref' =>
    rw [hlookup'] at hnamed
    obtain ⟨hsymbols⟩ := hnamed
    exact ⟨ref', rfl, hsymbols⟩

theorem lookup_eq_none (hlookup : context.table.lookupType? name = none) :
    other.table.lookupType? name = none := by
  have hnamed := h.named name
  rw [typeNamed?, typeNamed?, hlookup] at hnamed
  cases hlookup' : other.table.lookupType? name with
  | none => rfl
  | some ref' =>
    rw [hlookup'] at hnamed
    cases hnamed

/-- The same names mean types in both tables. -/
theorem resolveAlike : ResolveAlike context other where
  indexed := h.indexed
  indexed' := h.indexed'
  config_eq := h.config_eq
  isSome_eq := by
    intro name
    cases hlookup : context.table.lookupType? name with
    | none => rw [h.lookup_eq_none hlookup, Option.isSome_none, Option.isSome_none]
    | some ref =>
      obtain ⟨ref', hlookup', -⟩ := h.exists_lookup hlookup
      rw [hlookup', Option.isSome_some, Option.isSome_some]

theorem exists_extends (href : likeness.symbols (context.symbol ref) (other.symbol ref'))
    (hextends : context.Extends ref parent) :
    ∃ parent', other.Extends ref' parent' ∧
      likeness.symbols (context.symbol parent) (other.symbol parent') := by
  obtain ⟨name, hparent, hlookup⟩ := hextends
  obtain ⟨parent', hlookup', hsymbols⟩ := h.exists_lookup hlookup
  exact ⟨parent', ⟨name, (likeness.parent_eq href).trans hparent, hlookup'⟩, hsymbols⟩

theorem denies_eq {symbol symbol' : Symbol} (hsymbols : likeness.symbols symbol symbol') :
    other.denies symbol' = context.denies symbol := by
  rw [h.resolveAlike.denies_eq, likeness.eq_with hsymbols]
  rfl

/-- What two symbols that are alike declare in their tables is alike. -/
theorem exists_typeOn (href : likeness.symbols (context.symbol ref) (other.symbol ref'))
    {above above' : Option TypeDecl} (habove : Option.Rel likeness.types above above')
    {type : TypeDecl} (htype : (context.typeOn (context.symbol ref) above).outcome = .ok type) :
    ∃ type', (other.typeOn (other.symbol ref') above').outcome = .ok type' ∧
      likeness.types type type' := by
  obtain ⟨first, second, told, told', hfirst, hsecond, htypes, -⟩ := likeness.typeOn href habove
  rw [← h.resolveAlike.shown_typeOn] at hsecond
  obtain rfl := Except.ok.inj ((congrArg Prod.fst hfirst).symm.trans htype)
  exact ⟨second, congrArg Prod.fst hsecond, htypes⟩

/-- **Symbols that are alike declare types that are alike.** -/
theorem exists_declares {type : TypeDecl} (htype : context.Declares ref type)
    (href : likeness.symbols (context.symbol ref) (other.symbol ref')) :
    ∃ type', other.Declares ref' type' ∧ likeness.types type type' := by
  induction htype generalizing ref' with
  | top hallowed hparent htype =>
    obtain ⟨type', htype', htypes⟩ := h.exists_typeOn href .none htype
    exact ⟨type', .top ((h.denies_eq href).trans hallowed)
      ((likeness.parent_eq href).trans hparent) htype', htypes⟩
  | step hallowed hextends _ htype ih =>
    obtain ⟨parent', hextends', hparents⟩ := h.exists_extends href hextends
    obtain ⟨above', habove', habove⟩ := ih hparents
    obtain ⟨type', htype', htypes⟩ := h.exists_typeOn href (.some habove) htype
    exact ⟨type', .step ((h.denies_eq href).trans hallowed) hextends' habove' htype', htypes⟩

/-- **A request ends in the same way** in a table that mirrors another, if what is known is
alike. -/
theorem builds (hbuilds : context.Builds state ref outcome state')
    (href : likeness.symbols (context.symbol ref) (other.symbol ref'))
    (hstates : likeness.States state twin) :
    ∃ outcome' twin', other.Builds twin ref' outcome' twin' ∧
      likeness.Outcomes outcome outcome' ∧ likeness.States state' twin' := by
  -- whatever decides the case of a request is alike in the other table, so it is the same case
  induction hbuilds generalizing ref' twin with
  | @known state ref progress hknown =>
    obtain ⟨progress', hknown', hprogress⟩ := hstates.exists_memo hknown
    rw [← likeness.name_eq href] at hknown' ⊢
    exact ⟨_, twin, .known hknown', hprogress.answer _, hstates⟩
  | @denied state ref hnew hdenied =>
    have hnew' := hstates.memo_eq_none hnew
    have hdenied' := (h.denies_eq href).trans hdenied
    rw [← likeness.name_eq href] at hnew' ⊢
    exact ⟨_, _, .denied hnew' hdenied', .error _, (hstates.declare _ _ _).mark _ .unbuildable⟩
  | @unfit state ref type hnew hallowed hparent hunfit =>
    have hnew' := hstates.memo_eq_none hnew
    have hallowed' := (h.denies_eq href).trans hallowed
    have hparent' := (likeness.parent_eq href).trans hparent
    have hunfit' : ∀ parent, other.table.classify type ≠ .classLike parent := by
      intro parent hclass
      obtain ⟨name, rfl, hlookup'⟩ := SymbolTable.classify_eq_classLike_iff.mp hclass
      cases hlookup : context.table.lookupType? name with
      | none => exact nomatch (h.lookup_eq_none hlookup).symm.trans hlookup'
      | some above =>
        exact hunfit above (SymbolTable.classify_eq_classLike_iff.mpr ⟨name, rfl, hlookup⟩)
    rw [← likeness.name_eq href] at hnew' ⊢
    exact ⟨_, _, .unfit hnew' hallowed' hparent' hunfit', .error _,
      (hstates.opening _ _ _).mark _ .unbuildable⟩
  | @orphan state _ ref _ _ hnew hallowed hextends _ ih =>
    have hnew' := hstates.memo_eq_none hnew
    have hallowed' := (h.denies_eq href).trans hallowed
    obtain ⟨parent', hextends', hparents⟩ := h.exists_extends href hextends
    rw [← likeness.name_eq href] at hnew' ih ⊢
    obtain ⟨_, twin', hbuilds', ⟨⟩, htwin⟩ := ih hparents (hstates.opening _ ref ref')
    exact ⟨_, _, .orphan hnew' hallowed' hextends' hbuilds', .error _, htwin.mark _ .unbuildable⟩
  | @top state ref type hnew hallowed hparent htype =>
    have hnew' := hstates.memo_eq_none hnew
    have hallowed' := (h.denies_eq href).trans hallowed
    have hparent' := (likeness.parent_eq href).trans hparent
    obtain ⟨type', htype', htypes⟩ := h.exists_typeOn href .none htype
    rw [← likeness.name_eq href] at hnew' ⊢
    exact ⟨_, _, .top hnew' hallowed' hparent' htype', .ok htypes,
      ((hstates.opening _ _ _).take _ _).enter _ htypes⟩
  | @child state _ ref _ _ type hnew hallowed hextends _ htype ih =>
    have hnew' := hstates.memo_eq_none hnew
    have hallowed' := (h.denies_eq href).trans hallowed
    obtain ⟨parent', hextends', hparents⟩ := h.exists_extends href hextends
    rw [← likeness.name_eq href] at hnew' ih ⊢
    obtain ⟨_, twin', hbuilds', ⟨habove⟩, htwin⟩ := ih hparents (hstates.opening _ ref ref')
    obtain ⟨type', htype', htypes⟩ := h.exists_typeOn href (.some habove) htype
    exact ⟨_, _, .child hnew' hallowed' hextends' hbuilds' htype', .ok htypes,
      (htwin.take _ _).enter _ htypes⟩

/-- **Both tables answer alike**, if what is known is alike. -/
theorem build (href : likeness.symbols (context.symbol ref) (other.symbol ref'))
    (hstates : likeness.States state twin) :
    likeness.Outcomes (context.build state ref).1 (other.build twin ref').1 ∧
      likeness.States (context.build state ref).2 (other.build twin ref').2 := by
  obtain ⟨outcome', twin', hbuilds', houtcomes, hlast⟩ :=
    h.builds (context.builds h.indexed state ref) href hstates
  rw [hbuilds'.build_eq]
  exact ⟨houtcomes, hlast⟩

end Mirrors

end Bindery.Assembly.Context
