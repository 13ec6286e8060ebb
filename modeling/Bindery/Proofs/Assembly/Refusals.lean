import Bindery.Proofs.Assembly.Lifecycle
import Bindery.Proofs.Assembly.Moves

/-!
# What is told of types that cannot be built

A request that fails leaves unbuildable the type that was asked for, and those above it that it
failed for (`Bindery.Assembly.Context.Builds.unbuildable_cases`). The diagnostic names the type that
was asked for, but a type above it is named only if the failure happens to be about it. As whatever
is unbuildable is not asked for again, such a type may never be named, though one below it is
(`Bindery.Assembly.Context.Accounted`).

The listed classes and interfaces are asked for, each in its turn, so each of them is named or
built (`Bindery.Assembly.Context.Moves.told_or_built`).
-/

namespace Bindery

/-! ### Names in diagnostics -/

/-- **A diagnostic names something**: it is among the names that are listed as being on a cycle, or
stands in backquotes where something is skipped. -/
def Diagnostic.Names (diagnostic : Diagnostic) (name : String) : Prop :=
  (diagnostic.kind = .cycle ∧ ∃ names, name ∈ names ∧
      diagnostic.message = "dropping dependency cycle: " ++ String.intercalate ", " names) ∨
    diagnostic.kind = .skipped ∧ ("`" ++ name ++ "`").toList <:+: diagnostic.message.toList

/-- **Something is told of**: a diagnostic names it. -/
def ToldOf (diagnostics : List Diagnostic) (name : String) : Prop :=
  ∃ diagnostic ∈ diagnostics, diagnostic.Names name

theorem ToldOf.append {diagnostics : List Diagnostic} {name : String}
    (h : ToldOf diagnostics name) (more : List Diagnostic) : ToldOf (diagnostics ++ more) name := by
  obtain ⟨diagnostic, hmem, hnames⟩ := h
  exact ⟨diagnostic, List.mem_append_left more hmem, hnames⟩

theorem ToldOf.append_left {diagnostics : List Diagnostic} {name : String}
    (h : ToldOf diagnostics name) (before : List Diagnostic) :
    ToldOf (before ++ diagnostics) name := by
  obtain ⟨diagnostic, hmem, hnames⟩ := h
  exact ⟨diagnostic, List.mem_append_right before hmem, hnames⟩

theorem toldOf_skipped (before name after : String) :
    ToldOf [.skipped (before ++ "`" ++ name ++ "`" ++ after)] name := by
  refine ⟨_, List.mem_singleton_self _, Or.inr ⟨rfl, before.toList, after.toList, ?_⟩⟩
  change before.toList ++ ("`" ++ name ++ "`").toList ++ after.toList =
    (before ++ "`" ++ name ++ "`" ++ after).toList
  simp only [String.toList_append, List.append_assoc]

namespace Assembly

variable {context : Context} {state next last : State context.table.size} {ref : context.Ref}
  {refs listed : List context.Ref} {outcome : Except Failure Decl.TypeDecl} {name : String}

/-- What is left out is named. -/
theorem toldOf_absorb {failure : Failure} (h : failure.isRecoverable = true) (name : String) :
    ToldOf (absorb name (.error failure : Except Failure Decl.TypeDecl)).2.diagnostics name := by
  rw [absorb, if_pos h]
  have hmessage : "skipping `" ++ name ++ "`: " ++ skipReason name failure =
      "skipping " ++ "`" ++ name ++ "`" ++ (": " ++ skipReason name failure) := by
    simp only [String.append_assoc]
    rfl
  rw [hmessage]
  exact toldOf_skipped "skipping " name _

/-! ### Types that cannot be built -/

/-- **A type is accounted for**: it is told of, or a type below it is. -/
def Context.Accounted (context : Context) (diagnostics : List Diagnostic) (name : String) : Prop :=
  ToldOf diagnostics name ∨ ∃ ref heir, context.table.lookupType? name = some ref ∧
    Relation.TransGen context.Extends heir ref ∧ ToldOf diagnostics (context.symbol heir).name

/-- Each type that could not be built is accounted for. -/
def State.Accounts (context : Context) (state : State context.table.size) : Prop :=
  ∀ name : String, state.memo[name]? = some .unbuildable →
    context.Accounted state.report.diagnostics name

namespace Context

theorem Accounted.append {diagnostics : List Diagnostic} (h : context.Accounted diagnostics name)
    (more : List Diagnostic) : context.Accounted (diagnostics ++ more) name := by
  rcases h with htold | ⟨ref, heir, hlookup, hextends, htold⟩
  · exact Or.inl (htold.append more)
  · exact Or.inr ⟨ref, heir, hlookup, hextends, htold.append more⟩

theorem unbuildable_of_opening (h : (state.opening (context.symbol ref).name ref).memo[name]? =
    some .unbuildable) : state.memo[name]? = some .unbuildable := by
  rcases State.memo_of_opening h with ⟨-, ⟨⟩⟩ | ⟨-, h⟩
  exact h

/-- **What a request leaves unbuildable**, if it was not so before: the request fails, and the type
is the one that was asked for or stands above it. -/
theorem Builds.unbuildable_cases (h : context.Builds state ref outcome next)
    (hindexed : context.Indexed) (hfirst : context.IsFirst ref)
    (hnow : next.memo[name]? = some .unbuildable) :
    state.memo[name]? = some .unbuildable ∨ ∃ failure other, outcome = .error failure ∧
      context.table.lookupType? name = some other ∧
      Relation.ReflTransGen context.Extends ref other := by
  induction h with
  | known => exact Or.inl hnow
  | @denied _ ref =>
    rcases State.memo_of_mark hnow with ⟨rfl, -⟩ | ⟨-, hbefore⟩
    · exact Or.inr ⟨_, ref, rfl, hfirst, .refl⟩
    · exact Or.inl hbefore
  | @unfit _ ref =>
    rcases State.memo_of_mark hnow with ⟨rfl, -⟩ | ⟨-, hbefore⟩
    · exact Or.inr ⟨_, ref, rfl, hfirst, .refl⟩
    · exact Or.inl (unbuildable_of_opening hbefore)
  | @orphan _ _ ref _ failure _ _ hextends _ ih =>
    rcases State.memo_of_mark hnow with ⟨rfl, -⟩ | ⟨-, hbefore⟩
    · exact Or.inr ⟨failure, ref, rfl, hfirst, .refl⟩
    · rcases ih (hextends.isFirst hindexed) hbefore with hbefore | ⟨_, other, -, hlookup, habove⟩
      · exact Or.inl (unbuildable_of_opening hbefore)
      · exact Or.inr ⟨failure, other, rfl, hlookup, .head hextends habove⟩
  | top =>
    rcases State.memo_of_enter hnow with ⟨-, ⟨⟩⟩ | ⟨-, hbefore⟩
    exact Or.inl (unbuildable_of_opening hbefore)
  | child _ _ hextends _ _ ih =>
    rcases State.memo_of_enter hnow with ⟨-, ⟨⟩⟩ | ⟨-, hbefore⟩
    -- the parent was built, so nothing above it failed
    rcases ih (hextends.isFirst hindexed) hbefore with hbefore | ⟨_, _, ⟨⟩, -⟩
    exact Or.inl (unbuildable_of_opening hbefore)

/-- **A request accounts for what it leaves unbuildable.** -/
theorem Builds.accounts (h : context.Builds state ref outcome next) (hindexed : context.Indexed)
    (hfirst : context.IsFirst ref) (hstate : state.Accounts context) :
    (next.tell (absorb (context.symbol ref).name outcome).2).Accounts context := by
  intro name hnow
  obtain ⟨types, -, htold⟩ := h.exists_told hindexed hfirst
  change context.Accounted (next.report.diagnostics ++ _) name
  rcases h.unbuildable_cases hindexed hfirst hnow with hbefore |
    ⟨failure, other, rfl, hlookup, habove⟩
  · rw [htold]
    exact ((hstate name hbefore).append _).append _
  · have hnamed := (toldOf_absorb (h.isRecoverable rfl) (context.symbol ref).name).append_left
      next.report.diagnostics
    rcases Relation.reflTransGen_iff_eq_or_transGen.mp habove with rfl | habove
    · exact Or.inl (hindexed.name_eq hlookup ▸ hnamed)
    · exact Or.inr ⟨other, ref, hlookup, habove, hnamed⟩

/-- **A move accounts for what it leaves unbuildable.** -/
theorem Move.accounts (h : context.Move listed state ref next) (hindexed : context.Indexed)
    (hstate : state.Accounts context) : next.Accounts context := by
  cases h with
  | aside _ hmemo _ htold =>
    intro name hnow
    rw [hmemo] at hnow
    rw [htold]
    exact (hstate name hnow).append _
  | request _ hfirst hbuilds => exact hbuilds.accounts hindexed hfirst hstate

/-! ### Types that are asked for -/

/-- A type of this name is told of, or it was built. -/
def ToldOrBuilt {n : ℕ} (name : String) (state : State n) : Prop :=
  ToldOf state.report.diagnostics name ∨ ∃ type, state.memo[name]? = some (.built type)

theorem Move.told_or_built (h : context.Move listed state ref next) (hindexed : context.Indexed)
    (hstate : ToldOrBuilt name state) : ToldOrBuilt name next := by
  cases h with
  | aside _ hmemo _ htold =>
    rcases hstate with hnamed | ⟨type, hbuilt⟩
    · exact Or.inl (htold ▸ hnamed.append _)
    · exact Or.inr ⟨type, hmemo ▸ hbuilt⟩
  | request _ hfirst hbuilds =>
    obtain ⟨types, -, htold⟩ := hbuilds.exists_told hindexed hfirst
    rcases hstate with hnamed | ⟨type, hbuilt⟩
    · have hafter := hnamed.append (types.flatMap context.membersTold)
      exact Or.inl ((htold.symm ▸ hafter).append _)
    · exact Or.inr ⟨type, hbuilds.memo_eq hbuilt⟩

/-- After the move of a class or an interface its type is told of, or it was built. -/
theorem Move.told_or_built_self (h : context.Move listed state ref next)
    (hclass : (context.symbol ref).kind.isClassLike = true) :
    ToldOrBuilt (context.symbol ref).name next := by
  cases h with
  | aside _ _ _ htold =>
    have hmessage : "skipping duplicate declaration of `" ++ (context.symbol ref).name ++ "`" =
        "skipping duplicate declaration of " ++ "`" ++ (context.symbol ref).name ++ "`" ++ "" := by
      simp only [String.append_assoc, String.append_empty]
      rfl
    refine Or.inl (htold ▸ ToldOf.append_left ?_ _)
    rw [omissions, shown_aside_classLike hclass, hmessage]
    exact (toldOf_skipped _ _ _).append _
  | @request _ _ _ outcome _ _ hbuilds =>
    cases outcome with
    | ok type => exact Or.inr ⟨type, hbuilds.memo_of_ok rfl⟩
    | error failure => exact Or.inl ((toldOf_absorb (hbuilds.isRecoverable rfl) _).append_left _)

/-- **Each class or interface that has its move** is told of or built in the end. -/
theorem Moves.told_or_built (h : context.Moves listed state refs last) (hindexed : context.Indexed)
    (href : ref ∈ refs) (hclass : (context.symbol ref).kind.isClassLike = true) :
    ToldOrBuilt (context.symbol ref).name last := by
  induction h with
  | nil => exact absurd href List.not_mem_nil
  | cons _ hmove hrest ih =>
    rcases List.mem_cons.mp href with rfl | href
    · exact hrest.keep (fun _ hmove => hmove.told_or_built hindexed)
        (hmove.told_or_built_self hclass)
    · exact ih href

/-! ### Modules -/

namespace Arises

variable {count : Option ℕ} {assembled : Assembled} (h : context.Arises count assembled last)

include h

/-- **Types that could not be built are accounted for.** -/
theorem accounts (hindexed : context.Indexed) : last.Accounts context := by
  obtain ⟨later, hmoves⟩ := h.moves
  refine hmoves.keep (fun _ hmove => hmove.accounts hindexed) fun name hnone => ?_
  simp [State.initial] at hnone

/-- **Listed types are told of or built.** -/
theorem told_or_built (hindexed : context.Indexed) (href : ref ∈ context.listed count)
    (hclass : (context.symbol ref).kind.isClassLike = true) :
    ToldOrBuilt (context.symbol ref).name last := by
  obtain ⟨later, hmoves⟩ := h.moves
  exact hmoves.told_or_built hindexed (List.mem_append_left later href) hclass

end Arises

end Context

end Assembly

end Bindery
