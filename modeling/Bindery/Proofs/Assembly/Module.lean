import Bindery.Proofs.Assembly.Listed
import Mathlib.Data.List.TakeWhile

/-!
# Which types a module has

After the listed symbols come those that were met on the way. In the end, no symbol waits
any longer, so something is known of every type that a declaration refers to
(`Bindery.Assembly.Context.exists_drain`).

So the types of a module are settled by the symbol table and the configuration alone, whatever
the order in which they were asked for (`Bindery.Assembly.Context.built_iff_ascent`): a
type that is listed or referred to is there if and only if the way up from the first type of
its name comes to an end and meets nothing that is denied. Its chain is that way.
-/

namespace Bindery.Assembly

open Decl (Key TypeDecl)

variable {context : Context} {state : State context.table.size} {ref : context.Ref}
  {name : String}

/-! ### The symbols that were met -/

/-- Something is known of those that do not wait any longer. -/
theorem Context.mem_memo_of_not_isNew (h : context.isNew state.memo ref = false) :
    (context.symbol ref).name ∈ state.memo := by
  rw [isNew, Bool.not_eq_false'] at h
  exact Std.TreeMap.contains_iff_mem.mp h

/-- Something is known of all symbols that were met before the first that waits. -/
theorem Context.mem_waiting_or (href : ref ∈ state.pending) :
    ref ∈ context.waiting state ∨ (context.symbol ref).name ∈ state.memo := by
  rw [← List.takeWhile_append_dropWhile (p := fun ref => !context.isNew state.memo ref)
    (l := state.pending)] at href
  rcases List.mem_append.mp href with href | href
  · have hknown := List.mem_takeWhile_imp href
    rw [Bool.not_eq_true'] at hknown
    exact Or.inr (mem_memo_of_not_isNew hknown)
  · exact Or.inl href

section Dequeue

variable {pending : List context.Ref} (hwaiting : context.waiting state = ref :: pending)

include hwaiting

/-- What is covered stays so when the first symbol that waits is taken off, but the name of this
one is owed then. -/
theorem State.Covers.dequeue {key : Key} (h : state.Covers context nothing key) :
    ({ state with pending } : State context.table.size).Covers context
      (· = (context.symbol ref).name) key := by
  obtain ⟨name, rfl, hmemo | ⟨other, hother, rfl⟩ | howed⟩ := h
  · exact ⟨name, rfl, Or.inl hmemo⟩
  · rcases Context.mem_waiting_or hother with hother | hmemo
    · rw [hwaiting] at hother
      rcases List.mem_cons.mp hother with rfl | hother
      · exact ⟨_, rfl, Or.inr (Or.inr rfl)⟩
      · exact ⟨_, rfl, Or.inr (Or.inl ⟨other, hother, rfl⟩)⟩
    · exact ⟨_, rfl, Or.inl hmemo⟩
  · exact howed.elim

theorem Context.mem_pending_of_waiting {other : context.Ref} (hother : other ∈ ref :: pending) :
    other ∈ state.pending :=
  (List.dropWhile_sublist _).subset (hwaiting ▸ hother)

theorem State.Sound.dequeue (h : state.Sound context nothing) :
    ({ state with pending } : State context.table.size).Sound context
      (· = (context.symbol ref).name) :=
  h.of_covered
    { isFirst_of_pending := fun other hother => h.covered.isFirst_of_pending other
        (Context.mem_pending_of_waiting hwaiting (List.mem_cons_of_mem _ hother))
      covers := fun hbuilt key hkey => (h.covered.covers hbuilt key hkey).dequeue hwaiting }

end Dequeue

/-- **A symbol that waits makes its request**, and what is known stays sound. -/
theorem State.Sound.answer {pending : List context.Ref} (h : state.Sound context nothing)
    (hindexed : context.Indexed) (hwaiting : context.waiting state = ref :: pending)
    (report : Report) :
    ((context.build { state with pending } ref).2.tell report).Sound context nothing := by
  have hfirst := h.covered.isFirst_of_pending ref
    (Context.mem_pending_of_waiting hwaiting List.mem_cons_self)
  have hknown := Context.name_mem_memo_build { state with pending } ref
  exact (((h.dequeue hwaiting).build hindexed hfirst).settle hknown).tell report

/-- Where no symbol waits, something is known of whatever is covered. -/
theorem State.Covers.of_waiting_eq_nil {key : Key} (h : state.Covers context nothing key)
    (hwaiting : context.waiting state = []) :
    ({ state with pending := [] } : State context.table.size).Covers context nothing key := by
  obtain ⟨name, rfl, hmemo | ⟨other, hother, rfl⟩ | howed⟩ := h
  · exact ⟨name, rfl, Or.inl hmemo⟩
  · rcases Context.mem_waiting_or hother with hother | hmemo
    · rw [hwaiting] at hother
      exact absurd hother List.not_mem_nil
    · exact ⟨_, rfl, Or.inl hmemo⟩
  · exact howed.elim

/-- Whatever a request fails with is absorbed. -/
theorem Context.absorb_build_ne_error (hindexed : context.Indexed)
    (state : State context.table.size) (ref : context.Ref) (failure : Failure) :
    (absorb (context.symbol ref).name (context.build state ref).1).1 ≠ .error failure := by
  obtain ⟨report, habsorb⟩ := exists_absorb (context.symbol ref).name
    fun _ => (context.builds hindexed state ref).isRecoverable
  rw [habsorb]
  rintro ⟨⟩

/-- **The symbols that were met** never fail, and none of them waits in the end. -/
theorem Context.exists_drain (hindexed : context.Indexed) (h : state.Sound context nothing) :
    ∃ last, context.drain state = (.ok (), last) ∧ last.Sound context nothing ∧
      last.pending = [] ∧ (∀ name ∈ state.memo, name ∈ last.memo) ∧
      ∀ key, state.Covers context nothing key → last.Covers context nothing key := by
  fun_induction drain context state with
  | case1 state hwaiting =>
    refine ⟨{ state with pending := [] }, rfl, ?_, rfl, fun _ => id, fun key hkey =>
      hkey.of_waiting_eq_nil hwaiting⟩
    exact h.of_covered
      { isFirst_of_pending := fun _ hmem => absurd hmem List.not_mem_nil
        covers := fun hbuilt key hkey =>
          (h.covered.covers hbuilt key hkey).of_waiting_eq_nil hwaiting }
  | case2 state ref pending hwaiting result absorbed failure herror =>
    exact absurd herror (absorb_build_ne_error hindexed { state with pending } ref failure)
  | case3 state ref pending hwaiting result absorbed value hvalue ih =>
    have hbuilds := context.builds hindexed { state with pending } ref
    have hknown : (context.symbol ref).name ∈ result.2.memo := name_mem_memo_build _ ref
    obtain ⟨last, hdrain, hlast, hpending, hmemo, hcovers⟩ :=
      ih (h.answer hindexed hwaiting absorbed.2)
    refine ⟨last, hdrain, hlast, hpending, fun name hname => ?_, fun key hkey => ?_⟩
    · exact hmemo name (hbuilds.grows.memo_subset name hname)
    · exact hcovers key (((hkey.dequeue hwaiting).grows hbuilds.grows).settle hknown)

namespace Context

/-! ### The whole module -/

/-- **What the declarations of a module are**: the types that were built in the end, when no
symbol waits any longer, and declarations that are no types. Something is known of all that is
listed and of all that is referred to. -/
structure Ends (context : Context) (listed : List context.Ref) (decls : List Decl)
    (last : State context.table.size) : Prop where
  sound : last.Sound context nothing
  mem_decls_iff : ∀ type : TypeDecl, .type type ∈ decls ↔ type ∈ last.built
  mem_of_listed : ∀ ref ∈ listed, (context.symbol ref).kind.isClassLike = true →
    (context.symbol ref).name ∈ last.memo
  mem_of_dependency : ∀ decl ∈ decls, ∀ name, .type name ∈ decl.dependencies → name ∈ last.memo

/-- **A module is what is left in the end**, once the listed symbols and those that were met have
made their requests. -/
theorem ends_of_drain (hindexed : context.Indexed) {count : Option ℕ} {values : List Decl}
    {last : State context.table.size}
    (hlisted : context.buildListed (.initial _) (context.listed count) = (.ok values, state))
    (hdrain : context.drain state = (.ok (), last)) :
    ∃ assembled, context.assemble (context.listed count) = .ok assembled ∧
      assembled.decls = last.built.toList.map .type ++ values ∧
      assembled.report.diagnostics = last.report.diagnostics ∧
      context.Ends (context.listed count) assembled.decls last := by
  obtain ⟨values', state', hlisted', hleaves, hknown⟩ := exists_buildListed hindexed
    (context.listed count) .initial (firstsLead_listed hindexed count)
  obtain ⟨⟨⟩, rfl⟩ := Prod.mk.inj (hlisted.symm.trans hlisted')
  obtain ⟨last', hdrain', hlast, hpending, hmemo, hcovers⟩ := exists_drain hindexed hleaves.sound
  obtain ⟨-, rfl⟩ := Prod.mk.inj (hdrain.symm.trans hdrain')
  obtain ⟨report, hassemble, htold⟩ : ∃ report, context.assemble (context.listed count) =
      .ok ⟨last.built.toList.map .type ++ values, report⟩ ∧
        report.diagnostics = last.report.diagnostics := by
    rw [assemble, assembleFrom, hlisted]
    simp only [hdrain]
    exact ⟨_, rfl, List.append_nil _⟩
  have hmem : ∀ type : TypeDecl,
      .type type ∈ last.built.toList.map Decl.type ++ values ↔ type ∈ last.built := by
    intro type
    rw [List.mem_append, or_iff_left fun hvalue => hleaves.ne_type _ hvalue type rfl,
      List.mem_map_of_injective fun _ _ => Decl.type.inj, Array.mem_toList_iff]
  refine ⟨_, hassemble, rfl, htold, hlast, hmem, fun ref href hclass => ?_,
    fun decl hdecl name hdep => ?_⟩
  · exact hmemo _ (hknown ref href hclass)
  · have hcovered : last.Covers context nothing (.type name) := by
      rcases List.mem_append.mp hdecl with hdecl | hdecl
      · -- what a type refers to was covered when it was built
        obtain ⟨type, htype, rfl⟩ := List.mem_map.mp hdecl
        have hbuilt := (hlast.consistent.mem_built_iff type).mp (Array.mem_toList_iff.mp htype)
        exact hlast.covered.covers hbuilt _ (TypeDecl.mem_dependencies.mp hdep).2
      · exact hcovers _ (hleaves.covers decl hdecl _ hdep)
    obtain ⟨other, heq, hmemo | ⟨ref, href, -⟩ | howed⟩ := hcovered
    · exact Key.type.inj heq ▸ hmemo
    · rw [hpending] at href
      exact absurd href List.not_mem_nil
    · exact howed.elim

/-- **A module is always assembled.** -/
theorem exists_assemble (hindexed : context.Indexed) (count : Option ℕ) :
    ∃ assembled last, context.assemble (context.listed count) = .ok assembled ∧
      context.Ends (context.listed count) assembled.decls last := by
  obtain ⟨values, state, hlisted, hleaves, -⟩ := exists_buildListed hindexed
    (context.listed count) .initial (firstsLead_listed hindexed count)
  obtain ⟨last, hdrain, -⟩ := exists_drain hindexed hleaves.sound
  obtain ⟨assembled, hassemble, -, -, hends⟩ := ends_of_drain hindexed hlisted hdrain
  exact ⟨assembled, last, hassemble, hends⟩

/-- **The way up from a name is clear**: it starts at the type that the table answers with, comes
to a symbol without a parent, and meets no name twice and no symbol that is denied. -/
structure ClearAscent (context : Context) (name : String) (walk : List context.Ref) : Prop where
  ascent : ∃ ref, context.table.lookupType? name = some ref ∧ context.Ascent ref walk
  nodup : (walk.map fun ref => (context.symbol ref).name).Nodup
  allowed : ∀ ref ∈ walk, context.denies (context.symbol ref) = false

/-- The way up from whoever declares a type is clear. -/
theorem Declares.clearAscent {type : TypeDecl} (h : context.Declares ref type)
    (hindexed : context.Indexed) (hlookup : context.table.lookupType? name = some ref)
    {walk : List context.Ref} (hwalk : context.Ascent ref walk) :
    context.ClearAscent name walk := by
  obtain ⟨walk', hwalk', hallowed, -⟩ := h.exists_ascent hindexed
  obtain rfl := hwalk.unique hwalk'
  exact ⟨⟨ref, hlookup, hwalk⟩, hwalk.nodup_names hindexed (hindexed.isFirst hlookup), hallowed⟩

/-- A type is declared for a name if and only if the way up from the name is clear. -/
theorem exists_clearAscent_iff (hindexed : context.Indexed) :
    (∃ walk, context.ClearAscent name walk) ↔
      ∃ ref type, context.table.lookupType? name = some ref ∧ context.Declares ref type := by
  constructor
  · rintro ⟨walk, ⟨ref, hlookup, hwalk⟩, -, hallowed⟩
    obtain ⟨type, htype⟩ := (exists_declares_iff hindexed).mpr ⟨walk, hwalk, hallowed⟩
    exact ⟨ref, type, hlookup, htype⟩
  · rintro ⟨ref, type, hlookup, htype⟩
    obtain ⟨walk, hwalk, -⟩ := htype.exists_ascent hindexed
    exact ⟨walk, htype.clearAscent hindexed hlookup hwalk⟩

/-- A name is **wanted** in a module: it is that of a listed class or interface, or a declaration
depends on its type. -/
def Wanted (context : Context) (listed : List context.Ref) (decls : List Decl) (name : String) :
    Prop :=
  (∃ ref ∈ listed, (context.symbol ref).kind.isClassLike = true ∧
      (context.symbol ref).name = name) ∨
    ∃ decl ∈ decls, .type name ∈ decl.dependencies

namespace Ends

variable {listed : List context.Ref} {decls : List Decl} {last : State context.table.size}

/-- Something is known of every name that is wanted. -/
theorem mem_of_wanted (h : context.Ends listed decls last)
    (hwanted : context.Wanted listed decls name) : name ∈ last.memo := by
  rcases hwanted with ⟨ref, href, hclass, rfl⟩ | ⟨decl, hdecl, hdep⟩
  · exact h.mem_of_listed ref href hclass
  · exact h.mem_of_dependency decl hdecl name hdep

/-- The types of the module are those that the first types of their names declare. -/
theorem exists_declares (h : context.Ends listed decls last) {type : TypeDecl}
    (htype : .type type ∈ decls) :
    ∃ ref, context.table.lookupType? type.ident.foreign = some ref ∧ context.Declares ref type :=
  h.sound.right.declares_of_built
    ((h.sound.consistent.mem_built_iff type).mp ((h.mem_decls_iff type).mp htype))

/-- **Whoever is wanted and declares a type** is in the module. -/
theorem mem_decls (h : context.Ends listed decls last)
    (hwanted : context.Wanted listed decls name) {type : TypeDecl}
    (hlookup : context.table.lookupType? name = some ref) (htype : context.Declares ref type) :
    .type type ∈ decls ∧ type.ident.foreign = name := by
  have hmem := h.mem_of_wanted hwanted
  rw [Std.TreeMap.mem_iff_isSome_getElem?] at hmem
  obtain ⟨progress, hprogress⟩ := Option.isSome_iff_exists.mp hmem
  cases progress with
  | built other =>
    have hname := h.sound.consistent.foreign_eq hprogress
    obtain ⟨first, hfirst, hother⟩ := h.sound.right.declares_of_built hprogress
    obtain rfl := Option.some.inj (hlookup.symm.trans hfirst)
    obtain rfl := htype.unique hother
    refine ⟨(h.mem_decls_iff type).mpr ((h.sound.consistent.mem_built_iff type).mpr ?_), hname⟩
    rw [hname, hprogress]
  | unbuildable => exact absurd htype (h.sound.right.not_declares hprogress hlookup type)
  | underConstruction => exact absurd hprogress (h.sound.idle name)

end Ends

/-- What is worked out of a module that is assembled. -/
theorem exists_assembled_of_read {α : Type} {listed : List context.Ref} {read : Assembled → α}
    {value : α} (h : (context.assemble listed).toOption.map read = some value) :
    ∃ assembled, context.assemble listed = .ok assembled ∧ read assembled = value := by
  cases hassemble : context.assemble listed with
  | error failure =>
    rw [hassemble] at h
    cases h
  | ok assembled =>
    rw [hassemble] at h
    exact ⟨assembled, rfl, Option.some.inj h⟩

/-- **Which types a module has**. A name that is wanted has a type in the module if and only if
the way up from the name is clear, and the chain of its type is this way. Nothing of this
depends on the order in which names are asked for. -/
theorem built_iff_ascent (sources : List String) (symbols : List Symbol) (config : Config)
    (count : Option ℕ) :
    let context : Context := ⟨.ofSymbols sources symbols, config⟩
    ∃ assembled, context.assemble (context.listed count) = .ok assembled ∧
      ∀ name, context.Wanted (context.listed count) assembled.decls name →
        ((∃ type : TypeDecl, .type type ∈ assembled.decls ∧ type.ident.foreign = name) ↔
          ∃ walk, context.ClearAscent name walk) ∧
        ∀ type : TypeDecl, .type type ∈ assembled.decls → type.ident.foreign = name →
          ∃ walk, context.ClearAscent name walk ∧ type.chain.map (·.ident) =
            walk.map fun ref => context.ident (context.symbol ref).name := by
  intro context
  have hindexed : context.Indexed := indexed_ofSymbols sources symbols config
  obtain ⟨assembled, last, hassemble, hends⟩ := exists_assemble hindexed count
  have hchain : ∀ type : TypeDecl, .type type ∈ assembled.decls →
      ∃ walk, context.ClearAscent type.ident.foreign walk ∧ type.chain.map (·.ident) =
        walk.map fun ref => context.ident (context.symbol ref).name := by
    intro type htype
    obtain ⟨ref, hlookup, hdeclares⟩ := hends.exists_declares htype
    obtain ⟨walk, hwalk, hallowed, hidents⟩ := hdeclares.exists_ascent hindexed
    exact ⟨walk, ⟨⟨ref, hlookup, hwalk⟩,
      hwalk.nodup_names hindexed (hindexed.isFirst hlookup), hallowed⟩, hidents⟩
  refine ⟨assembled, hassemble, fun name hwanted => ⟨⟨?_, ?_⟩, ?_⟩⟩
  · rintro ⟨type, htype, rfl⟩
    obtain ⟨walk, hwalk, -⟩ := hchain type htype
    exact ⟨walk, hwalk⟩
  · intro hclear
    obtain ⟨ref, type, hlookup, htype⟩ := (exists_clearAscent_iff hindexed).mp hclear
    exact ⟨type, hends.mem_decls hwanted hlookup htype⟩
  · rintro type htype rfl
    exact hchain type htype

end Context

end Bindery.Assembly
