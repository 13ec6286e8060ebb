import Bindery.Proofs.Assembly.Likeness
import Bindery.Proofs.Assembly.Told
import Bindery.Proofs.Assembly.Values

/-!
# Two modules side by side

Of two tables one may **omit** variables and functions that the configuration denies anyway, and
hold symbols that are alike otherwise (`Bindery.Assembly.Context.Mirrors.of_forall₂`). Turn by
turn the two modules then go on in the same way (`Bindery.Assembly.Context.Mirrors.turns`). In the
end their types are alike, in order, their other declarations are the same, and what is told of
them is the same but for what is told of the omitted symbols and what the likeness takes from the
types (`Bindery.Assembly.Context.Mirrors.assembles`).
-/

namespace Bindery.Assembly.Context

open Decl (TypeDecl)

variable {context other : Context} {likeness : context.Likeness}
  {state next last : State context.table.size} {twin next' last' : State other.table.size}
  {ref : context.Ref} {ref' : other.Ref} {decls decls' : List Decl}

/-! ### What is told of types -/

/-- What is only told of the first of two types that are alike. -/
def Likeness.takenFrom (likeness : context.Likeness) (type : TypeDecl) : List Diagnostic :=
  (context.original? type).elim [] likeness.taken

theorem Mirrors.tells_members (h : Mirrors other likeness) {type type' : TypeDecl}
    (htypes : likeness.types type type') : likeness.telling.tells (context.membersTold type)
      (likeness.takenFrom type) (other.membersTold type') := by
  have hnamed := h.named type.ident.foreign
  rw [membersTold, Likeness.takenFrom, membersTold, original?, original?, likeness.ident_eq htypes]
  generalize context.typeNamed? type.ident.foreign = symbol? at hnamed
  generalize other.typeNamed? type.ident.foreign = symbol?' at hnamed
  cases hnamed with
  | none => exact likeness.telling.none []
  | some hsymbols =>
    obtain ⟨_, _, told, told', hfirst, hsecond, -, htells⟩ :=
      likeness.typeOn hsymbols (likeness.parent? htypes)
    rw [Option.elim_some, Option.elim_some, Option.elim_some, hfirst,
      h.resolveAlike.shown_typeOn, hsecond]
    exact htells

/-! ### Going on in the same way -/

/-- **Two builds go on in the same way**: types are built that are alike, and what is told is the
same, but for what is `omitted` and what the likeness takes from these types. -/
structure Likeness.Follows (likeness : context.Likeness) {n m : ℕ} (state next : State n)
    (twin next' : State m) (omitted : List Diagnostic) : Prop where
  states : likeness.States next next'
  exists_told : ∃ types told told', next.built.toList = state.built.toList ++ types ∧
    next.report.diagnostics = state.report.diagnostics ++ told ∧
    next'.report.diagnostics = twin.report.diagnostics ++ told' ∧
    likeness.telling.tells told (omitted ++ types.flatMap likeness.takenFrom) told'

namespace Likeness.Follows

theorem refl {n m : ℕ} {state : State n} {twin : State m} (h : likeness.States state twin) :
    likeness.Follows state state twin twin [] where
  states := h
  exists_told := ⟨[], [], [], (List.append_nil _).symm, (List.append_nil _).symm,
    (List.append_nil _).symm, likeness.telling.none []⟩

/-- The same is told in both builds. -/
theorem of_told {n m : ℕ} {state next : State n} {twin next' : State m} {told : List Diagnostic}
    (h : likeness.States next next') (hbuilt : next.built = state.built)
    (htold : next.report.diagnostics = state.report.diagnostics ++ told)
    (htold' : next'.report.diagnostics = twin.report.diagnostics ++ told) :
    likeness.Follows state next twin next' [] where
  states := h
  exists_told := by
    refine ⟨[], told, told, ?_, htold, htold', likeness.telling.none told⟩
    rw [hbuilt, List.append_nil]

theorem trans {n m : ℕ} {state next last : State n} {twin next' last' : State m}
    {omitted omitted' : List Diagnostic} (h : likeness.Follows state next twin next' omitted)
    (h' : likeness.Follows next last next' last' omitted') :
    likeness.Follows state last twin last' (omitted ++ omitted') where
  states := h'.states
  exists_told := by
    obtain ⟨types, told, told', hbuilt, htold, htold', htells⟩ := h.exists_told
    obtain ⟨more, rest, rest', hmore, hrest, hrest', htells'⟩ := h'.exists_told
    refine ⟨types ++ more, told ++ rest, told' ++ rest', ?_, ?_, ?_, ?_⟩
    · rw [hmore, hbuilt, List.append_assoc]
    · rw [hrest, htold, List.append_assoc]
    · rw [hrest', htold', List.append_assoc]
    · refine likeness.telling.of_perm (likeness.telling.append htells htells') ?_
      rw [List.flatMap_append]
      exact perm_append_of_perms (.refl _) (.refl _)

end Likeness.Follows

/-! ### Standing aside -/

theorem ResolveAlike.shown_aside (h : ResolveAlike context other) (symbol : Symbol) :
    (other.aside symbol).shown = (context.aside symbol).shown := by
  rw [aside, aside]
  split
  · simp only [Attempt.shown_bind, Attempt.shown_pure, h.shown_global]
  · simp only [Attempt.shown_bind, Attempt.shown_pure, h.shown_function]
  · simp only [Attempt.shown_bind, Attempt.shown_pure, Attempt.shown_tell]
  · simp only [Attempt.shown_bind, Attempt.shown_pure, Attempt.shown_tell]

theorem ResolveAlike.values_eq (h : ResolveAlike context other) (symbol : Symbol) :
    other.values symbol = context.values symbol :=
  congrArg kept (congrArg Prod.fst (h.shown_aside symbol))

theorem ResolveAlike.omissions_eq (h : ResolveAlike context other) (symbol : Symbol) :
    other.omissions symbol = context.omissions symbol := by
  have houtcome := congrArg Prod.fst (h.shown_aside symbol)
  change (other.aside symbol).outcome = (context.aside symbol).outcome at houtcome
  rw [omissions, omissions, h.shown_aside, houtcome]

namespace Mirrors

variable (h : Mirrors other likeness)

include h

/-- **Symbols that are alike** come to the same when they stand aside. -/
theorem values_eq {symbol symbol' : Symbol} (hsymbols : likeness.symbols symbol symbol') :
    other.values symbol' = context.values symbol := by
  rw [h.resolveAlike.values_eq, likeness.eq_with hsymbols]
  rfl

theorem omissions_eq {symbol symbol' : Symbol} (hsymbols : likeness.symbols symbol symbol') :
    other.omissions symbol' = context.omissions symbol := by
  rw [h.resolveAlike.omissions_eq, likeness.eq_with hsymbols]
  rfl

/-! ### Turns -/

/-- **In a request both modules go on in the same way.** -/
theorem request {outcome outcome' : Except Failure TypeDecl}
    (hbuilds : context.Builds state ref outcome next) (hfirst : context.IsFirst ref)
    (hbuilds' : other.Builds twin ref' outcome' next') (hfirst' : other.IsFirst ref')
    (href : likeness.symbols (context.symbol ref) (other.symbol ref'))
    (hstates : likeness.States state twin) :
    likeness.Outcomes outcome outcome' ∧ likeness.Follows state next twin next' [] := by
  obtain ⟨types, hbuilt, htold⟩ := hbuilds.exists_told h.indexed hfirst
  obtain ⟨types', hbuilt', htold'⟩ := hbuilds'.exists_told h.indexed' hfirst'
  obtain ⟨houtcomes, hnext⟩ := h.build href hstates
  rw [hbuilds.build_eq, hbuilds'.build_eq] at houtcomes hnext
  have htypes : List.Forall₂ likeness.types types types' := by
    have hall := hnext.built
    rw [hbuilt, hbuilt'] at hall
    have hdrop := List.forall₂_drop_append _ _ _ hall
    rwa [← hstates.built.length_eq, List.drop_left] at hdrop
  exact ⟨houtcomes, hnext, types, _, _, hbuilt, htold, htold',
    likeness.telling.flatMap (fun _ _ htypes => h.tells_members htypes) htypes⟩

/-- **In a turn both modules go on in the same way.** -/
theorem turn (hturn : context.Turn state ref decls next)
    (hturn' : other.Turn twin ref' decls' next')
    (href : likeness.symbols (context.symbol ref) (other.symbol ref'))
    (hfirst : context.IsFirst ref ↔ other.IsFirst ref') (hstates : likeness.States state twin) :
    decls = decls' ∧ likeness.Follows state next twin next' [] := by
  cases hturn with
  | aside hlater hmemo hbuilt htold =>
    cases hturn' with
    | aside _ hmemo' hbuilt' htold' =>
      rw [h.omissions_eq href] at htold'
      refine ⟨(h.values_eq href).symm, .of_told ⟨?_, ?_⟩ hbuilt htold htold'⟩
      · rw [hmemo, hmemo']
        exact hstates.memo
      · rw [hbuilt, hbuilt']
        exact hstates.built
    | request hyes => exact absurd (hfirst.mpr hyes) hlater
  | request hyes hbuilds =>
    cases hturn' with
    | aside hlater => exact absurd (hfirst.mp hyes) hlater
    | request hyes' hbuilds' =>
      obtain ⟨houtcomes, hfollows⟩ := h.request hbuilds hyes hbuilds' hyes' href hstates
      rw [likeness.name_eq href]
      refine ⟨rfl, hfollows.trans (.of_told (hfollows.states.tell _ _) rfl rfl ?_)⟩
      cases houtcomes <;> rfl

/-- **A turn that the other module does not have**, as the symbol is omitted there. -/
theorem turn_omitted (hturn : context.Turn state ref decls next)
    (hvalue : (context.symbol ref).kind.isClassLike = false)
    (hdenied : context.denies (context.symbol ref) = true) (hstates : likeness.States state twin) :
    decls = [] ∧ likeness.Follows state next twin twin [symbolDenial (context.symbol ref)] := by
  cases hturn with
  | aside hlater hmemo hbuilt htold =>
    obtain ⟨hvalues, homissions⟩ := aside_of_denied hvalue hdenied
    rw [homissions] at htold
    refine ⟨hvalues, ⟨?_, ?_⟩, [], _, [], ?_, htold, (List.append_nil _).symm,
      likeness.telling.all _⟩
    · rw [hmemo]
      exact hstates.memo
    · rw [hbuilt]
      exact hstates.built
    · rw [hbuilt, List.append_nil]
  | request hfirst =>
    have hclass := h.indexed.isClassLike_of_isFirst hfirst
    exact absurd (hvalue.symm.trans hclass) Bool.false_ne_true

/-! ### All turns -/

end Mirrors

/-- **The symbols of two tables are paired**, except for those that the second table omits. -/
inductive Paired (likeness : context.Likeness) (other : Context) (omits : Symbol → Bool) :
    List context.Ref → List other.Ref → Prop
  | nil : Paired likeness other omits [] []
  | keep {ref : context.Ref} {ref' : other.Ref} {refs : List context.Ref} {refs' : List other.Ref}
    (hkeep : omits (context.symbol ref) = false)
    (href : likeness.symbols (context.symbol ref) (other.symbol ref'))
    (hfirst : context.IsFirst ref ↔ other.IsFirst ref')
    (h : Paired likeness other omits refs refs') :
    Paired likeness other omits (ref :: refs) (ref' :: refs')
  | skip {ref : context.Ref} {refs : List context.Ref} {refs' : List other.Ref}
    (homit : omits (context.symbol ref) = true) (h : Paired likeness other omits refs refs') :
    Paired likeness other omits (ref :: refs) refs'

/-- What may be omitted: variables and functions that are denied. -/
def Omittable (context : Context) (omits : Symbol → Bool) : Prop :=
  ∀ symbol, omits symbol = true →
    symbol.kind.isClassLike = false ∧ context.denies symbol = true

/-- What is told of omitted symbols. -/
def omissionsTold (omits : Symbol → Bool) (symbols : List Symbol) : List Diagnostic :=
  (symbols.filter omits).map symbolDenial

namespace Mirrors

variable (h : Mirrors other likeness) {omits : Symbol → Bool}

include h

/-- **Turn by turn both modules go on in the same way.** -/
theorem turns {refs : List context.Ref} {refs' : List other.Ref}
    (homits : context.Omittable omits) (hpaired : Paired likeness other omits refs refs')
    (hturns : context.Turns state refs decls last) (hturns' : other.Turns twin refs' decls' last')
    (hstates : likeness.States state twin) :
    decls = decls' ∧ likeness.Follows state last twin last'
      (omissionsTold omits (refs.map context.symbol)) := by
  induction hpaired generalizing state twin decls decls' with
  | nil =>
    cases hturns
    cases hturns'
    exact ⟨rfl, .refl hstates⟩
  | @keep ref ref' refs refs' hkeep href hfirst _ ih =>
    obtain _ | ⟨-, hturn, hrest⟩ := hturns
    obtain _ | ⟨-, hturn', hrest'⟩ := hturns'
    obtain ⟨rfl, hfollows⟩ := h.turn hturn hturn' href hfirst hstates
    obtain ⟨rfl, hfollows'⟩ := ih hrest hrest' hfollows.states
    rw [omissionsTold, List.map_cons, List.filter_cons_of_neg (Bool.eq_false_iff.mp hkeep)]
    exact ⟨rfl, hfollows.trans hfollows'⟩
  | @skip ref refs refs' homit _ ih =>
    -- the other module stands still in this turn
    obtain _ | ⟨-, hturn, hrest⟩ := hturns
    obtain ⟨hvalue, hdenied⟩ := homits _ homit
    obtain ⟨rfl, hfollows⟩ := h.turn_omitted hturn hvalue hdenied hstates
    obtain ⟨rfl, hfollows'⟩ := ih hrest hturns' hfollows.states
    rw [omissionsTold, List.map_cons, List.filter_cons_of_pos homit]
    exact ⟨rfl, hfollows.trans hfollows'⟩

/-- **Both modules come out alike**: the types are alike, in order, the other declarations are the
same, and so is what is told but for what is omitted or taken. -/
theorem assembles {assembled assembled' : Assembled} {values : List Decl} {values' : List Decl}
    (homits : context.Omittable omits) (hpaired : Paired likeness other omits
      (List.finRange context.table.size) (List.finRange other.table.size))
    (hassembles : context.Assembles assembled values last)
    (hassembles' : other.Assembles assembled' values' last') :
    List.Forall₂ likeness.types (types assembled.decls) (types assembled'.decls) ∧
      values = values' ∧
      likeness.telling.tells assembled.report.diagnostics
        (omissionsTold omits context.table.symbols.toList ++
          (types assembled.decls).flatMap likeness.takenFrom)
        assembled'.report.diagnostics := by
  obtain ⟨hvalues, hfollows⟩ :=
    h.turns homits hpaired hassembles.turns hassembles'.turns .initial
  obtain ⟨built, told, told', hbuilt, htold, htold', htells⟩ := hfollows.exists_told
  rw [hassembles.types_eq h.indexed, hassembles'.types_eq h.indexed', hassembles.diagnostics_eq,
    hassembles'.diagnostics_eq, htold, htold', ← map_symbol_finRange]
  refine ⟨hfollows.states.built, hvalues, ?_⟩
  rw [hbuilt]
  exact htells

end Mirrors

/-! ### Tables that only differ in their symbols -/

section Lists

variable {omits : Symbol → Bool} {symbols symbols' : List Symbol}

theorem Likeness.declaresType_eq {symbol symbol' : Symbol}
    (hsymbols : likeness.symbols symbol symbol') (name : String) :
    symbol'.declaresType name = symbol.declaresType name := by
  rw [Symbol.declaresType, Symbol.declaresType, likeness.kind_eq hsymbols,
    likeness.name_eq hsymbols]

theorem Omittable.declaresType_eq (homits : context.Omittable omits) {symbol : Symbol}
    (homit : omits symbol = true) (name : String) : symbol.declaresType name = false := by
  rw [Symbol.declaresType, (homits symbol homit).1, Bool.false_and]

/-- The types of a name come from symbols that are alike. -/
theorem Omittable.rel_find? (homits : context.Omittable omits)
    (h : List.Forall₂ likeness.symbols (symbols.filter fun symbol => !omits symbol) symbols')
    (name : String) : Option.Rel likeness.symbols (symbols.find? (·.declaresType name))
      (symbols'.find? (·.declaresType name)) := by
  induction symbols generalizing symbols' with
  | nil =>
    rw [List.filter_nil, List.forall₂_nil_left_iff] at h
    subst h
    exact .none
  | cons symbol symbols ih =>
    cases homit : omits symbol with
    | true =>
      rw [List.filter_cons_of_neg (by simp [homit])] at h
      rw [List.find?_cons_of_neg (by simp [homits.declaresType_eq homit])]
      exact ih h
    | false =>
      rw [List.filter_cons_of_pos (by simp [homit])] at h
      cases h with
      | cons hsymbols hrest =>
        rw [List.find?_cons, List.find?_cons, likeness.declaresType_eq hsymbols]
        cases symbol.declaresType name with
        | true => exact .some hsymbols
        | false => exact ih hrest

/-- **A table mirrors another** if its symbols are those of the other that are not omitted. -/
theorem Mirrors.of_forall₂ (homits : context.Omittable omits) (hindexed : context.Indexed)
    (hindexed' : other.Indexed) (hconfig : other.config = context.config)
    (h : List.Forall₂ likeness.symbols
      (context.table.symbols.toList.filter fun symbol => !omits symbol)
      other.table.symbols.toList) : Mirrors other likeness where
  indexed := hindexed
  indexed' := hindexed'
  config_eq := hconfig
  named := fun name => by
    rw [hindexed.typeNamed?_eq, hindexed'.typeNamed?_eq]
    exact homits.rel_find? h name

/-- Whether a symbol is the first of its name is seen in both tables alike. -/
theorem isFirst_iff_of_split (hindexed : context.Indexed) (hindexed' : other.Indexed)
    {before after : List context.Ref} {before' after' : List other.Ref}
    (hsplit : List.finRange context.table.size = before ++ ref :: after)
    (hsplit' : List.finRange other.table.size = before' ++ ref' :: after')
    (href : likeness.symbols (context.symbol ref) (other.symbol ref'))
    (hbefore : ∀ name, before.any (context.DeclaresType name) =
      before'.any (other.DeclaresType name)) :
    context.IsFirst ref ↔ other.IsFirst ref' := by
  rw [hindexed.isFirst_iff, hindexed'.isFirst_iff, likeness.kind_eq href, likeness.name_eq href]
  refine and_congr_right fun _ => ?_
  simp only [← mem_iff_lt_of_split hsplit, ← mem_iff_lt_of_split hsplit', ← Bool.not_eq_true]
  rw [← List.any_eq_false, ← List.any_eq_false, hbefore]

/-- The symbols after some that declare types of the same names. -/
theorem paired_of_split (homits : context.Omittable omits) (hindexed : context.Indexed)
    (hindexed' : other.Indexed) {refs before : List context.Ref} {refs' before' : List other.Ref}
    (hsplit : List.finRange context.table.size = before ++ refs)
    (hsplit' : List.finRange other.table.size = before' ++ refs')
    (hbefore : ∀ name, before.any (context.DeclaresType name) =
      before'.any (other.DeclaresType name))
    (h : List.Forall₂ likeness.symbols
      ((refs.map context.symbol).filter fun symbol => !omits symbol)
      (refs'.map other.symbol)) :
    Paired likeness other omits refs refs' := by
  induction refs generalizing refs' before before' with
  | nil =>
    rw [List.map_nil, List.filter_nil, List.forall₂_nil_left_iff, List.map_eq_nil_iff] at h
    subst h
    exact .nil
  | cons ref refs ih =>
    rw [← List.singleton_append, ← List.append_assoc] at hsplit
    cases homit : omits (context.symbol ref) with
    | true =>
      rw [List.map_cons, List.filter_cons_of_neg (by simp [homit])] at h
      refine .skip homit (ih hsplit hsplit' (fun name => ?_) h)
      have hnone : context.DeclaresType name ref = false := homits.declaresType_eq homit name
      rw [List.any_append, hbefore, List.any_cons, hnone]
      simp
    | false =>
      rw [List.map_cons, List.filter_cons_of_pos (by simp [homit])] at h
      cases refs' with
      | nil => cases h
      | cons ref' refs' =>
        rw [List.map_cons] at h
        obtain _ | ⟨href, hrest⟩ := h
        rw [← List.singleton_append, ← List.append_assoc] at hsplit'
        refine .keep homit href ?_ (ih hsplit hsplit' (fun name => ?_) hrest)
        · rw [List.append_assoc, List.singleton_append] at hsplit hsplit'
          exact isFirst_iff_of_split hindexed hindexed' hsplit hsplit' href hbefore
        · have hsame : other.DeclaresType name ref' = context.DeclaresType name ref :=
            likeness.declaresType_eq href name
          rw [List.any_append, List.any_append, hbefore, List.any_cons, List.any_cons, hsame]
          simp

theorem Paired.of_forall₂ (homits : context.Omittable omits) (hindexed : context.Indexed)
    (hindexed' : other.Indexed) (h : List.Forall₂ likeness.symbols
      (context.table.symbols.toList.filter fun symbol => !omits symbol)
      other.table.symbols.toList) :
    Paired likeness other omits (List.finRange context.table.size)
      (List.finRange other.table.size) := by
  rw [← map_symbol_finRange, ← map_symbol_finRange] at h
  exact paired_of_split homits hindexed hindexed' (List.nil_append _).symm (List.nil_append _).symm
    (fun _ => rfl) h

end Lists

end Bindery.Assembly.Context
