import Bindery.Proofs.Assembly.Knowledge

/-!
# No reference is forgotten

What a built type refers to is **covered** (`Bindery.Assembly.State.Covers`): something is known
of it, or it waits among the symbols that were met. A name that is taken off them to be asked for
is **owed** in between. Nothing that is covered is ever lost, as a request only adds to the memo
and to the symbols that were met (`Bindery.Assembly.Context.Builds.grows`).
-/

namespace Bindery.Assembly

open Decl (Key TypeDecl)

variable {context : Context} {state state' state'' : State context.table.size}
  {ref : context.Ref} {name : String} {progress : Progress} {type : TypeDecl}
  {outcome : Except Failure TypeDecl} {owed : String → Prop} {key : Key}

/-! ### More and more is known -/

/-- **A state that comes after another** knows of all names that this one knows of, and has met
all symbols that this one has met. -/
structure State.Grows {n : ℕ} (state state' : State n) : Prop where
  memo_subset : ∀ name, name ∈ state.memo → name ∈ state'.memo
  pending_subset : state.pending ⊆ state'.pending

namespace State.Grows

theorem refl {n : ℕ} (state : State n) : state.Grows state :=
  ⟨fun _ => id, fun _ => id⟩

theorem trans (h : state.Grows state') (h' : state'.Grows state'') : state.Grows state'' :=
  ⟨fun name hname => h'.memo_subset name (h.memo_subset name hname),
    fun _ href => h'.pending_subset (h.pending_subset href)⟩

theorem mark (h : state.Grows state') (name : String) (progress : Progress) :
    state.Grows (state'.mark name progress) :=
  ⟨fun name' hname => Std.TreeMap.mem_insert.mpr (Or.inr (h.memo_subset name' hname)),
    h.pending_subset⟩

theorem take (h : state.Grows state') (notes : Notes context.table.size) :
    state.Grows (state'.take notes) :=
  ⟨h.memo_subset, fun _ href => List.mem_append_left _ (h.pending_subset href)⟩

theorem declare (state : State context.table.size) (name : String) (ref : context.Ref) :
    state.Grows (state.declare name ref) :=
  ⟨fun _ => id, fun _ => id⟩

theorem opening (state : State context.table.size) (name : String) (ref : context.Ref) :
    state.Grows (state.opening name ref) :=
  (State.Grows.declare state name ref).mark name .underConstruction

theorem enter (h : state.Grows state') (name : String) (type : TypeDecl) :
    state.Grows (state'.enter name type) :=
  ⟨(h.mark name (.built type)).memo_subset, h.pending_subset⟩

end State.Grows

/-- **A request only adds** to the memo and to the symbols that were met. -/
theorem Context.Builds.grows (h : context.Builds state ref outcome state') :
    state.Grows state' := by
  induction h with
  | known => exact .refl _
  | denied => exact (State.Grows.declare _ _ _).mark _ _
  | unfit => exact (State.Grows.opening _ _ _).mark _ _
  | orphan _ _ _ _ ih => exact ((State.Grows.opening _ _ _).trans ih).mark _ _
  | top => exact ((State.Grows.opening _ _ _).take _).enter _ _
  | child _ _ _ _ _ ih => exact (((State.Grows.opening _ _ _).trans ih).take _).enter _ _

/-! ### What is covered -/

/-- **A key is covered**: it is that of a type of which something is known, that was met, or
that is owed. -/
def State.Covers (context : Context) (state : State context.table.size) (owed : String → Prop)
    (key : Key) : Prop :=
  ∃ name, key = .type name ∧
    (name ∈ state.memo ∨ (∃ ref ∈ state.pending, (context.symbol ref).name = name) ∨ owed name)

/-- What nothing is owed to. -/
abbrev nothing : String → Prop := fun _ => False

theorem State.Covers.grows (h : state.Covers context owed key) (hgrows : state.Grows state') :
    state'.Covers context owed key := by
  obtain ⟨name, rfl, hmemo | ⟨ref, href, hname⟩ | howed⟩ := h
  · exact ⟨name, rfl, Or.inl (hgrows.memo_subset name hmemo)⟩
  · exact ⟨name, rfl, Or.inr (Or.inl ⟨ref, hgrows.pending_subset href, hname⟩)⟩
  · exact ⟨name, rfl, Or.inr (Or.inr howed)⟩

/-- A name is no longer owed once something is known of it. -/
theorem State.Covers.settle (h : state.Covers context (· = name) key) (hmem : name ∈ state.memo) :
    state.Covers context nothing key := by
  obtain ⟨other, rfl, hmemo | hpending | rfl⟩ := h
  · exact ⟨other, rfl, Or.inl hmemo⟩
  · exact ⟨other, rfl, Or.inr (Or.inl hpending)⟩
  · exact ⟨other, rfl, Or.inl hmem⟩

/-- A key that was met is covered once the notes are taken. -/
theorem State.covers_take {notes : Notes context.table.size}
    (h : context.Names (· ∈ notes.met) key) : (state.take notes).Covers context owed key := by
  obtain ⟨ref, href, rfl⟩ := h
  exact ⟨_, rfl, Or.inr (Or.inl ⟨ref, List.mem_append_right _ href, rfl⟩)⟩

/-- **Whatever the built types refer to is covered**, and what was met are first types of their
names. -/
structure State.Covered (context : Context) (owed : String → Prop)
    (state : State context.table.size) : Prop where
  isFirst_of_pending : ∀ ref ∈ state.pending, context.IsFirst ref
  covers : ∀ {name : String} {type : TypeDecl}, state.memo[name]? = some (.built type) →
    ∀ key ∈ type.references, state.Covers context owed key

namespace State.Covered

theorem initial : (State.initial context.table.size).Covered context owed where
  isFirst_of_pending := fun _ href => absurd href List.not_mem_nil
  covers := fun h => by simp [State.initial] at h

theorem take (h : state.Covered context owed) {notes : Notes context.table.size}
    (hmet : ∀ ref ∈ notes.met, context.IsFirst ref) : (state.take notes).Covered context owed where
  isFirst_of_pending := by
    intro ref href
    rcases List.mem_append.mp href with href | href
    · exact h.isFirst_of_pending ref href
    · exact hmet ref href
  covers := fun hbuilt key hkey => (h.covers hbuilt key hkey).grows ((State.Grows.refl _).take _)

/-- Something else than a type becomes known. -/
theorem mark (h : state.Covered context owed) (hprogress : ∀ type, progress ≠ .built type) :
    (state.mark name progress).Covered context owed where
  isFirst_of_pending := h.isFirst_of_pending
  covers := by
    intro name' type hbuilt key hkey
    rcases memo_of_mark hbuilt with ⟨-, heq⟩ | ⟨-, hbuilt⟩
    · exact absurd heq (hprogress type)
    · exact (h.covers hbuilt key hkey).grows ((State.Grows.refl _).mark _ _)

theorem declare (h : state.Covered context owed) : (state.declare name ref).Covered context owed :=
  ⟨h.isFirst_of_pending, h.covers⟩

theorem opening (h : state.Covered context owed) : (state.opening name ref).Covered context owed :=
  h.declare.mark fun _ heq => nomatch heq

/-- A type is built that only refers to what is covered. -/
theorem enter (h : state.Covered context owed)
    (hkeys : ∀ key ∈ type.references, state.Covers context owed key) :
    (state.enter name type).Covered context owed where
  isFirst_of_pending := h.isFirst_of_pending
  covers := by
    have hgrows : state.Grows (state.enter name type) := (State.Grows.refl state).enter name type
    intro name' other hbuilt key hkey
    rcases memo_of_enter hbuilt with ⟨-, ⟨⟩⟩ | ⟨-, hbuilt⟩
    · exact (hkeys key hkey).grows hgrows
    · exact (h.covers hbuilt key hkey).grows hgrows

end State.Covered

/-- **A request leaves covered what the built types refer to.** -/
theorem Context.Builds.covered (h : context.Builds state ref outcome state')
    (hindexed : context.Indexed) (hconsistent : state.Consistent)
    (hstate : state.Covered context owed) : state'.Covered context owed := by
  induction h with
  | known => exact hstate
  | denied => exact hstate.declare.mark fun _ heq => nomatch heq
  | unfit => exact hstate.opening.mark fun _ heq => nomatch heq
  | orphan hnew _ _ hbuild ih =>
    exact (ih (hconsistent.opening hnew) hstate.opening).mark fun _ heq => nomatch heq
  | @top _ ref _ _ _ _ htype =>
    have hmet := (runs_typeOn hindexed (context.symbol ref) none).met
    refine (hstate.opening.take hmet).enter fun key hkey => ?_
    rcases references_of_typeOn hindexed htype hkey with hnames | ⟨other, hother, -⟩
    · exact State.covers_take hnames
    · exact nomatch hother
  | @child _ state' ref parent above _ hnew _ _ hbuild htype ih =>
    have hmet := (runs_typeOn hindexed (context.symbol ref) (some above)).met
    have hcovered := ih (hconsistent.opening hnew) hstate.opening
    have habove := hbuild.memo_of_ok rfl
    refine (hcovered.take hmet).enter fun key hkey => ?_
    rcases references_of_typeOn hindexed htype hkey with hnames | ⟨_, ⟨⟩, rfl | hkey⟩
    · exact State.covers_take hnames
    · -- the parent itself was built just now
      refine ⟨above.ident.foreign, rfl, Or.inl ?_⟩
      have hname := (hbuild.consistent hindexed (hconsistent.opening hnew)).foreign_eq habove
      rw [hname, State.memo_take, Std.TreeMap.mem_iff_isSome_getElem?, habove]
      rfl
    · exact (hcovered.covers habove key hkey).grows ((State.Grows.refl _).take _)

end Bindery.Assembly
