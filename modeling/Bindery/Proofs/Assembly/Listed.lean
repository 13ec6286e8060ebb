import Bindery.Assembly.Module
import Bindery.Proofs.Assembly.Coverage
import Bindery.Proofs.Decl.Dependencies

/-!
# The listed symbols

Between two requests no type is under construction, so what is known of a name is either a type
or that there is none (`Bindery.Assembly.State.Sound`). The listed symbols keep it so, and
never fail (`Bindery.Assembly.Context.exists_buildListed`). They leave known the names of all
classes and interfaces among them: a class or an interface that is not the first of its name is
left out, but then the first is listed before it.
-/

namespace Bindery.Assembly

open Decl (Key TypeDecl)

variable {context : Context} {state state' : State context.table.size} {ref : context.Ref}
  {name : String} {owed : String → Prop}

/-! ### Between requests -/

/-- **What a build knows between two requests** is right, whatever it refers to is covered, and
no type is under construction. -/
structure State.Sound (context : Context) (owed : String → Prop)
    (state : State context.table.size) : Prop where
  consistent : state.Consistent
  attributed : state.Attributed context
  right : state.Right context
  covered : state.Covered context owed
  idle : ∀ name : String, state.memo[name]? ≠ some .underConstruction

namespace State.Sound

theorem initial : (State.initial context.table.size).Sound context owed where
  consistent := .initial _
  attributed := .initial
  right := .initial
  covered := .initial
  idle := fun name => by simp [State.initial]

theorem tell (h : state.Sound context owed) (report : Report) :
    (state.tell report).Sound context owed where
  consistent := ⟨h.consistent.foreign_eq, h.consistent.mem_built_iff⟩
  attributed := h.attributed
  right := ⟨h.right.declares_of_built, h.right.not_declares⟩
  covered := ⟨h.covered.isFirst_of_pending, h.covered.covers⟩
  idle := h.idle

theorem take (h : state.Sound context owed) {notes : Notes context.table.size}
    (hmet : ∀ ref ∈ notes.met, context.IsFirst ref) : (state.take notes).Sound context owed where
  consistent := h.consistent.take notes
  attributed := h.attributed.take notes
  right := h.right.take notes
  covered := h.covered.take hmet
  idle := h.idle

/-- **A request by the first type of a name** keeps all that. -/
theorem build (h : state.Sound context owed) (hindexed : context.Indexed)
    (hfirst : context.IsFirst ref) : (context.build state ref).2.Sound context owed where
  consistent := (context.builds hindexed state ref).consistent hindexed h.consistent
  attributed := (context.builds hindexed state ref).attributed hindexed hfirst h.attributed
  right := ((context.builds hindexed state ref).right hindexed hfirst
    (fun name hopen => absurd hopen (h.idle name)) h.right).1
  covered := (context.builds hindexed state ref).covered hindexed h.consistent h.covered
  idle := fun name hopen =>
    h.idle name ((context.builds hindexed state ref).underConstruction_iff.mp hopen)

/-- What waits, and what is owed, only matters for what is covered. -/
theorem of_covered {pending : List context.Ref} {owed' : String → Prop}
    (h : state.Sound context owed)
    (hcovered : ({ state with pending } : State context.table.size).Covered context owed') :
    ({ state with pending } : State context.table.size).Sound context owed' where
  consistent := ⟨h.consistent.foreign_eq, h.consistent.mem_built_iff⟩
  attributed := h.attributed
  right := ⟨h.right.declares_of_built, h.right.not_declares⟩
  covered := hcovered
  idle := h.idle

/-- A name is no longer owed once something is known of it. -/
theorem settle (h : state.Sound context (· = name)) (hmem : name ∈ state.memo) :
    state.Sound context nothing :=
  h.of_covered
    { isFirst_of_pending := h.covered.isFirst_of_pending
      covers := fun hbuilt key hkey => (h.covered.covers hbuilt key hkey).settle hmem }

end State.Sound

/-! ### What fails is left out -/

theorem exists_absorb {α : Type} {outcome : Except Failure α} (name : String)
    (h : ∀ failure, outcome = .error failure → failure.isRecoverable = true) :
    ∃ report, absorb name outcome = (.ok outcome.toOption, report) := by
  cases outcome with
  | ok value => exact ⟨∅, rfl⟩
  | error failure =>
    rw [absorb, if_pos (h failure rfl)]
    exact ⟨_, rfl⟩

/-! ### What a listed symbol leaves -/

/-- **What listed symbols leave behind**: declarations that are no types and only refer to what
is covered, and a state that knows more. -/
structure Leaves (context : Context) (state : State context.table.size) (decls : List Decl)
    (state' : State context.table.size) : Prop where
  sound : state'.Sound context nothing
  grows : state.Grows state'
  ne_type : ∀ decl ∈ decls, ∀ type, decl ≠ .type type
  covers : ∀ decl ∈ decls, ∀ key ∈ decl.dependencies, state'.Covers context nothing key

theorem Leaves.nil (hsound : state'.Sound context nothing) (hgrows : state.Grows state') :
    Leaves context state [] state' :=
  ⟨hsound, hgrows, fun _ hmem => absurd hmem List.not_mem_nil,
    fun _ hmem => absurd hmem List.not_mem_nil⟩

theorem Leaves.tell {decls : List Decl} (h : Leaves context state decls state') (report : Report) :
    Leaves context state decls (state'.tell report) :=
  ⟨h.sound.tell report, ⟨h.grows.memo_subset, h.grows.pending_subset⟩, h.ne_type, h.covers⟩

theorem Leaves.append {state'' : State context.table.size} {decls decls' : List Decl}
    (h : Leaves context state decls state') (h' : Leaves context state' decls' state'') :
    Leaves context state (decls ++ decls') state'' where
  sound := h'.sound
  grows := h.grows.trans h'.grows
  ne_type := fun decl hdecl =>
    (List.mem_append.mp hdecl).elim (h.ne_type decl) (h'.ne_type decl)
  covers := by
    intro decl hdecl key hkey
    rcases List.mem_append.mp hdecl with hdecl | hdecl
    · exact (h.covers decl hdecl key hkey).grows h'.grows
    · exact h'.covers decl hdecl key hkey

namespace Context

/-- What is left of an outcome in the end. -/
def kept (outcome : Except Failure (List Decl)) : List Decl := outcome.toOption.getD []

/-- **A symbol leaves something behind**, and if it fails, it can be done without. -/
def Settles (context : Context) (state : State context.table.size)
    (result : Except Failure (List Decl) × State context.table.size) : Prop :=
  (∀ failure, result.1 = .error failure → failure.isRecoverable = true) ∧
    Leaves context state (kept result.1) result.2

/-- An attempt at declarations that only refer to what it met. -/
theorem settles_attempt {α : Type} {attempt : context.Attempt α} {decls : α → List Decl}
    (h : state.Sound context nothing)
    (hattempt : attempt.Runs context.IsFirst (fun failure => failure.isRecoverable = true)
      fun seen value => ∀ decl ∈ decls value, (∀ type, decl ≠ .type type) ∧
        ∀ key ∈ decl.dependencies, context.Names seen key) :
    context.Settles state (attempt.outcome.map decls, state.take attempt.notes) := by
  have hsound := h.take hattempt.met
  have hgrows := (State.Grows.refl state).take attempt.notes
  rcases houtcome : attempt.outcome with failure | value
  · refine ⟨?_, .nil hsound hgrows⟩
    rintro _ ⟨⟩
    exact hattempt.failed failure houtcome
  · have hvalue := hattempt.value value houtcome _ fun _ => id
    refine ⟨(fun _ herror => nomatch herror), hsound, hgrows, ?_, ?_⟩
    · exact fun decl hdecl => (hvalue decl hdecl).1
    · exact fun decl hdecl key hkey => State.covers_take ((hvalue decl hdecl).2 key hkey)

theorem settles_global (hindexed : context.Indexed) (h : state.Sound context nothing)
    (hkind : (context.symbol ref).kind = .global) :
    context.Settles state (context.buildSymbol state ref) := by
  rw [buildSymbol, hkind]
  refine settles_attempt h ((runs_global hindexed (context.symbol ref)).mono (fun _ => id) ?_)
  intro seen global hglobal decl hdecl
  obtain rfl := List.mem_singleton.mp hdecl
  refine ⟨(fun type heq => nomatch heq), fun key hkey => hglobal key ?_⟩
  exact Option.mem_toList.mp (Decl.mem_ofList_iff.mp hkey)

theorem settles_function (hindexed : context.Indexed) (h : state.Sound context nothing)
    (hkind : (context.symbol ref).kind = .function) :
    context.Settles state (context.buildSymbol state ref) := by
  rw [buildSymbol, hkind]
  refine settles_attempt h ((runs_function hindexed (context.symbol ref)).mono (fun _ => id) ?_)
  intro seen signatures hsignatures decl hdecl
  obtain ⟨signature, hmem, rfl⟩ := List.mem_map.mp hdecl
  refine ⟨(fun type heq => nomatch heq), fun key hkey => hsignatures signature hmem key ?_⟩
  exact Decl.mem_ofList_iff.mp hkey

theorem buildSymbol_of_isClassLike (hkind : (context.symbol ref).kind.isClassLike = true) :
    context.buildSymbol state ref =
      if state.declaredBy[(context.symbol ref).name]?.any (· ≠ ref) then
        (.ok [], state.tell (.skipped
          ("skipping duplicate declaration of `" ++ (context.symbol ref).name ++ "`")))
      else ((context.build state ref).1.map fun _ => [], (context.build state ref).2) := by
  rw [buildSymbol]
  cases hclass : (context.symbol ref).kind with
  | classType => rfl
  | interfaceType => rfl
  | function => exact absurd (hclass ▸ hkind) (by decide)
  | global => exact absurd (hclass ▸ hkind) (by decide)

/-- A class or an interface that nobody else of its name was asked for by is the first of its
name, if that name is known. -/
theorem isFirst_of_declaredBy (hindexed : context.Indexed) (h : state.Sound context nothing)
    (hkind : (context.symbol ref).kind.isClassLike = true)
    (hknown : (context.symbol ref).name ∈ state.memo)
    (hown : ¬ state.declaredBy[(context.symbol ref).name]?.any (· ≠ ref) = true) :
    context.IsFirst ref := by
  obtain ⟨first, hfirst, -⟩ := hindexed.exists_le (declaresType_self hkind)
  rw [Std.TreeMap.mem_iff_isSome_getElem?] at hknown
  obtain ⟨progress, hprogress⟩ := Option.isSome_iff_exists.mp hknown
  rw [h.attributed, hprogress, Option.bind_some, hfirst, Option.any_some, decide_eq_true_eq,
    not_not] at hown
  exact hown ▸ hfirst

/-- **A listed class or interface** leaves its name known. If it is not the first of its name,
the first is known by then, and it is left out. -/
theorem settles_classLike (hindexed : context.Indexed) (h : state.Sound context nothing)
    (hkind : (context.symbol ref).kind.isClassLike = true)
    (hbefore : context.IsFirst ref ∨ (context.symbol ref).name ∈ state.memo) :
    context.Settles state (context.buildSymbol state ref) ∧
      (context.symbol ref).name ∈ (context.buildSymbol state ref).2.memo := by
  rw [buildSymbol_of_isClassLike hkind]
  split
  · next hother =>
    refine ⟨⟨(fun _ herror => nomatch herror), .nil (h.tell _) ⟨fun _ => id, fun _ => id⟩⟩, ?_⟩
    rw [h.attributed] at hother
    rw [State.memo_tell, Std.TreeMap.mem_iff_isSome_getElem?]
    cases hmemo : state.memo[(context.symbol ref).name]? with
    | none => simp [hmemo] at hother
    | some progress => rfl
  · next hown =>
    have hfirst : context.IsFirst ref :=
      hbefore.elim id fun hknown => isFirst_of_declaredBy hindexed h hkind hknown hown
    have hbuilds := context.builds hindexed state ref
    refine ⟨⟨fun failure herror => ?_, ?_⟩, name_mem_memo_build state ref⟩
    · cases houtcome : (context.build state ref).1 with
      | ok type => exact nomatch houtcome ▸ herror
      | error other =>
        rw [houtcome] at herror
        cases herror
        exact hbuilds.isRecoverable houtcome
    · have hnil : kept ((context.build state ref).1.map fun _ => []) = [] := by
        cases (context.build state ref).1 <;> rfl
      rw [hnil]
      exact .nil (h.build hindexed hfirst) hbuilds.grows

/-! ### All listed symbols -/

/-- **In a list of symbols the first type of a name comes before the others**, unless its name
is known anyway. -/
def FirstsLead (context : Context) (state : State context.table.size) (refs : List context.Ref) :
    Prop :=
  ∀ before ref after, refs = before ++ ref :: after →
    (context.symbol ref).kind.isClassLike = true →
      context.IsFirst ref ∨ (context.symbol ref).name ∈ state.memo ∨
        ∃ other ∈ before, (context.symbol other).kind.isClassLike = true ∧
          (context.symbol other).name = (context.symbol ref).name

theorem FirstsLead.head {refs : List context.Ref} (h : context.FirstsLead state (ref :: refs))
    (hclass : (context.symbol ref).kind.isClassLike = true) :
    context.IsFirst ref ∨ (context.symbol ref).name ∈ state.memo := by
  rcases h [] ref refs rfl hclass with hfirst | hmem | ⟨other, hother, -⟩
  · exact Or.inl hfirst
  · exact Or.inr hmem
  · exact absurd hother List.not_mem_nil

/-- After the first of some symbols, its name is known if it is a class or an interface. -/
theorem FirstsLead.tail {refs : List context.Ref} (h : context.FirstsLead state (ref :: refs))
    (hgrows : state.Grows state') (hknown : (context.symbol ref).kind.isClassLike = true →
      (context.symbol ref).name ∈ state'.memo) : context.FirstsLead state' refs := by
  intro before other after hsplit hclass
  have hcons : ref :: refs = (ref :: before) ++ other :: after := by rw [hsplit]; rfl
  rcases h _ other after hcons hclass with hfirst | hmem | ⟨earlier, hmem, hlike, hname⟩
  · exact Or.inl hfirst
  · exact Or.inr (Or.inl (hgrows.memo_subset _ hmem))
  · rcases List.mem_cons.mp hmem with rfl | hmem
    · exact Or.inr (Or.inl (hname ▸ hknown hlike))
    · exact Or.inr (Or.inr ⟨earlier, hmem, hlike, hname⟩)

theorem settles_buildSymbol (hindexed : context.Indexed) (h : state.Sound context nothing)
    (hbefore : (context.symbol ref).kind.isClassLike = true →
      context.IsFirst ref ∨ (context.symbol ref).name ∈ state.memo) :
    context.Settles state (context.buildSymbol state ref) ∧
      ((context.symbol ref).kind.isClassLike = true →
        (context.symbol ref).name ∈ (context.buildSymbol state ref).2.memo) := by
  by_cases hclass : (context.symbol ref).kind.isClassLike = true
  · obtain ⟨hsettles, hmem⟩ := settles_classLike hindexed h hclass (hbefore hclass)
    exact ⟨hsettles, fun _ => hmem⟩
  · refine ⟨?_, fun h => absurd h hclass⟩
    cases hkind : (context.symbol ref).kind with
    | global => exact settles_global hindexed h hkind
    | function => exact settles_function hindexed h hkind
    | classType => exact absurd (by rw [hkind]; rfl) hclass
    | interfaceType => exact absurd (by rw [hkind]; rfl) hclass

/-- **The listed symbols**, one after the other, never fail, and the names of their classes and
interfaces are known in the end. -/
theorem exists_buildListed (hindexed : context.Indexed) (refs : List context.Ref)
    (h : state.Sound context nothing) (hfirsts : context.FirstsLead state refs) :
    ∃ decls last, context.buildListed state refs = (.ok decls, last) ∧
      Leaves context state decls last ∧
      ∀ ref ∈ refs, (context.symbol ref).kind.isClassLike = true →
        (context.symbol ref).name ∈ last.memo := by
  induction refs generalizing state with
  | nil => exact ⟨[], state, rfl, .nil h (.refl state), fun _ href => absurd href List.not_mem_nil⟩
  | cons ref refs ih =>
    obtain ⟨⟨hrecoverable, hleaves⟩, hknown⟩ := settles_buildSymbol hindexed h hfirsts.head
    obtain ⟨report, habsorb⟩ := exists_absorb (context.symbol ref).name hrecoverable
    have htold := hleaves.tell report
    obtain ⟨decls, last, hlisted, hlast, hall⟩ :=
      ih htold.sound (hfirsts.tail htold.grows hknown)
    refine ⟨kept (context.buildSymbol state ref).1 ++ decls, last, ?_, htold.append hlast, ?_⟩
    · rw [buildListed]
      simp only [habsorb, hlisted]
      rfl
    · intro other hother hclass
      rcases List.mem_cons.mp hother with rfl | hother
      · exact hlast.grows.memo_subset _ (hknown hclass)
      · exact hall other hother hclass

/-- Among the listed symbols of a table the first type of each name comes first. -/
theorem firstsLead_listed (hindexed : context.Indexed) (count : Option ℕ) :
    context.FirstsLead state (context.listed count) := by
  intro before ref after hsplit hclass
  by_cases hfirst : context.IsFirst ref
  · exact Or.inl hfirst
  obtain ⟨first, hlookup, hle⟩ := hindexed.exists_le (declaresType_self hclass)
  have hlt : first < ref := lt_of_le_of_ne hle fun heq => hfirst (heq ▸ hlookup)
  obtain ⟨rest, hrest⟩ : ∃ rest, List.finRange context.table.size =
      before ++ ref :: (after ++ rest) := by
    cases count with
    | none => exact ⟨[], by rw [List.append_nil, ← hsplit]; rfl⟩
    | some count =>
      refine ⟨(List.finRange context.table.size).drop count, ?_⟩
      have hprefix := List.take_append_drop count (List.finRange context.table.size)
      rw [← List.cons_append, ← List.append_assoc, ← hsplit]
      exact hprefix.symm
  have hlike := hindexed.declaresType hlookup
  rw [DeclaresType, Bool.and_eq_true] at hlike
  exact Or.inr (Or.inr ⟨first, (mem_iff_lt_of_split hrest).mpr hlt, hlike.1,
    hindexed.name_eq hlookup⟩)

end Context

end Bindery.Assembly
