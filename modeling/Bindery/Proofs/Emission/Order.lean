import Bindery.Proofs.Emission.Groups
import Mathlib.Data.String.Basic

/-!
# The order of what is emitted

A group of one key leaves the first declaration of that key, if there is one, and a group
of several leaves nothing but a diagnostic. So what is emitted comes in the order of the
groups, where no key needs a later one (`Bindery.Emission.pairwise_emit`): each declaration
stands after all those that it depends on (`Bindery.Emission.defined_before_use`).

Nothing is lost and nothing is doubled (`Bindery.Emission.emit_accounts`): of each key that
lies on no cycle the first declaration is emitted, once, and the report names the later
declarations and the cycles, no more.
-/

namespace Bindery.Emission

open Decl (Key)

variable {decls : List Decl} {key : Key} {decl : Decl}

/-! ### What a group leaves -/

/-- What is declared under a key is its first declaration. -/
theorem getElem?_ofList_sift :
    (Std.TreeMap.ofList (sift ∅ decls).1 : Std.TreeMap Key Decl)[key]? = first? decls key := by
  have hnodup : ((sift ∅ decls).1.map Prod.fst).Nodup := nodup_keys_sift
  have hdistinct : (sift ∅ decls).1.Pairwise fun a b => ¬ compare a.1 b.1 = .eq :=
    (List.pairwise_map.mp hnodup).imp fun hne heq => hne (Decl.Key.compare_eq_iff.mp heq)
  rcases hfirst : first? decls key with _ | decl
  · refine Std.TreeMap.getElem?_ofList_of_contains_eq_false ?_
    rw [← Bool.not_eq_true, List.contains_iff_mem]
    intro hmem
    obtain ⟨⟨key, decl⟩, hpair, rfl⟩ := List.mem_map.mp hmem
    exact absurd (hfirst.symm.trans (mem_sift.mp hpair)) (by simp)
  · exact Std.TreeMap.getElem?_ofList_of_mem (Decl.Key.compare_eq_iff.mpr rfl) hdistinct
      (mem_sift.mpr hfirst)

/-- **What a group leaves**: the first declaration of a key that stands alone. -/
def left (decls : List Decl) : List Key → List Decl
  | [key] => (first? decls key).toList
  | _ => []

/-- The diagnostic of a group of several keys. -/
def groupDiagnostics : List Key → List Diagnostic
  | [_] => []
  | keys => [.cycle ((keys.map Key.name).mergeSort fun a b => (compare a b).isLE)]

theorem place_fst (keys : List Key) :
    (place (.ofList (sift ∅ decls).1) keys).1 = left decls keys := by
  rcases keys with _ | ⟨key, _ | ⟨other, keys⟩⟩
  · rfl
  · rw [place, left, getElem?_ofList_sift]
    split
    · next hfirst => rw [hfirst]; rfl
    · next hfirst => rw [hfirst]; rfl
  · rfl

theorem place_snd (keys : List Key) :
    (place (.ofList (sift ∅ decls).1) keys).2.diagnostics = groupDiagnostics keys := by
  rcases keys with _ | ⟨key, _ | ⟨other, keys⟩⟩
  · rfl
  · rw [place, groupDiagnostics]
    split <;> rfl
  · rfl

theorem decls_emit : (emit decls).decls = (groups (sift ∅ decls).1).flatMap (left decls) := by
  have h : (emit decls).decls = ((groups (sift ∅ decls).1).map
      (place (.ofList (sift ∅ decls).1))).flatMap Prod.fst := rfl
  rw [h, List.flatMap_map]
  exact List.flatMap_congr fun keys _ => place_fst keys

theorem diagnostics_emit : (emit decls).report.diagnostics =
    (reused decls).map reusedDiagnostic ++
      (groups (sift ∅ decls).1).flatMap groupDiagnostics := by
  have h : (emit decls).report = (sift ∅ decls).2 ++ .concat (((groups (sift ∅ decls).1).map
      (place (.ofList (sift ∅ decls).1))).map Prod.snd) := rfl
  rw [h, Report.diagnostics_append, diagnostics_sift, Report.diagnostics_concat, List.flatMap_map,
    List.flatMap_map]
  exact congrArg _ (List.flatMap_congr fun keys _ => place_snd keys)

/-! ### What is emitted -/

theorem mem_left_iff {group : List Key} :
    decl ∈ left decls group ↔ ∃ key, group = [key] ∧ first? decls key = some decl := by
  rcases group with _ | ⟨key, _ | ⟨other, keys⟩⟩
  · simp [left]
  · simp [left]
  · simp [left]

/-- **What is emitted** are the first declarations of the keys that lie on no cycle. -/
theorem mem_emit_iff : decl ∈ (emit decls).decls ↔
    ∃ key, first? decls key = some decl ∧ ¬ OnCycle decls key := by
  rw [decls_emit, List.mem_flatMap]
  constructor
  · rintro ⟨group, hgroup, hleft⟩
    obtain ⟨key, rfl, hfirst⟩ := mem_left_iff.mp hleft
    exact ⟨key, hfirst, (singleton_mem_groups_iff.mp hgroup).2⟩
  · rintro ⟨key, hfirst, hcycle⟩
    exact ⟨[key], singleton_mem_groups_iff.mpr ⟨Or.inl ⟨decl, hfirst⟩, hcycle⟩,
      mem_left_iff.mpr ⟨key, rfl, hfirst⟩⟩

/-- Only what is declared is emitted. -/
theorem mem_of_mem_emit (h : decl ∈ (emit decls).decls) : decl ∈ decls := by
  obtain ⟨key, hfirst, -⟩ := mem_emit_iff.mp h
  exact List.mem_of_find?_eq_some hfirst

/-- A key that is declared but not emitted lies on a cycle. -/
theorem onCycle_of_not_emitted (hmem : decl ∈ decls) (hkey : decl.key? = some key)
    (hnone : ∀ other ∈ (emit decls).decls, other.key? ≠ some key) : OnCycle decls key := by
  by_contra hcycle
  have hsome : (first? decls key).isSome :=
    List.find?_isSome.mpr ⟨decl, hmem, decide_eq_true hkey⟩
  obtain ⟨first, hfirst⟩ := Option.isSome_iff_exists.mp hsome
  exact hnone first (mem_emit_iff.mpr ⟨key, hfirst, hcycle⟩) (key?_of_first? hfirst)

/-- **Nothing needs what comes later**, and no key comes twice. -/
theorem pairwise_emit : (emit decls).decls.Pairwise fun earlier later =>
    earlier.key? ≠ later.key? ∧ ∀ key, later.key? = some key → key ∉ earlier.dependencies := by
  rw [decls_emit, List.pairwise_flatMap]
  constructor
  · intro group _
    rcases group with _ | ⟨key, _ | ⟨other, keys⟩⟩
    · exact List.Pairwise.nil
    · rw [left]
      cases first? decls key with
      | none => exact List.Pairwise.nil
      | some decl => exact List.pairwise_singleton _ _
    · exact List.Pairwise.nil
  · -- two declarations of two groups: the keys differ, and the earlier needs no later one
    have hnodup : (groups (sift ∅ decls).1).flatten.Nodup := nodup_flatten_groups
    refine ((List.nodup_flatten.mp hnodup).2.and pairwise_groups).imp ?_
    rintro earlier later ⟨hdisjoint, hneeds⟩ first hfirst second hsecond
    obtain ⟨a, rfl, ha⟩ := mem_left_iff.mp hfirst
    obtain ⟨b, rfl, hb⟩ := mem_left_iff.mp hsecond
    rw [key?_of_first? ha, key?_of_first? hb]
    refine ⟨fun heq => ?_, fun key hkey hdep => ?_⟩
    · cases heq
      exact hdisjoint List.mem_cons_self List.mem_cons_self
    · cases hkey
      exact hneeds a List.mem_cons_self b List.mem_cons_self ⟨first, ha, hdep⟩

/-- **Definition before use**: an emitted declaration stands before those that depend on it. -/
theorem defined_before_use {i j : ℕ} {user used : Decl}
    (huser : (emit decls).decls[i]? = some user) (hdep : key ∈ user.dependencies)
    (hused : (emit decls).decls[j]? = some used) (hkey : used.key? = some key) : j < i := by
  obtain ⟨hi, huser⟩ := List.getElem?_eq_some_iff.mp huser
  obtain ⟨hj, hused⟩ := List.getElem?_eq_some_iff.mp hused
  rcases lt_trichotomy i j with hlt | rfl | hlt
  · have hpair := List.pairwise_iff_getElem.mp pairwise_emit i j hi hj hlt
    rw [huser, hused] at hpair
    exact absurd hdep (hpair.2 key hkey)
  · rw [← huser, hused] at hdep
    exact absurd hdep (Decl.notMem_dependencies_of_key? hkey)
  · exact hlt

section Sample

/-- The body of a type with fields of other types. -/
private def sampleBody (name : String) (fields : List String) : Decl.TypeBody where
  ident := ⟨name, name⟩
  isAbstract := false
  fields := fields.map fun other => ⟨⟨other, other⟩, .declared ⟨other, other⟩⟩
  constructors := []
  methods := []

private def point : Decl := .type ⟨sampleBody "Point" ["Point"], []⟩

private def origin : Decl := .global ⟨⟨"origin", "origin"⟩, .declared ⟨"Point", "Point"⟩⟩

/-- The origin, the type of points after it, and two types that hold each other. -/
private def sample : List Decl :=
  [origin, .type ⟨sampleBody "Line" ["Point", "Side"], []⟩,
    .type ⟨sampleBody "Side" ["Line", "Length"], []⟩, point]

theorem point_before_origin : (emit sample).decls[1]? = some origin ∧
    Key.type "Point" ∈ origin.dependencies ∧ (emit sample).decls[0]? = some point ∧
      point.key? = some (.type "Point") ∧ 0 < 1 := by
  have huser : (emit sample).decls[1]? = some origin := by decide +kernel
  have hdep : Key.type "Point" ∈ origin.dependencies := by decide +kernel
  have hused : (emit sample).decls[0]? = some point := by decide +kernel
  have hkey : point.key? = some (.type "Point") := rfl
  exact ⟨huser, hdep, hused, hkey, defined_before_use huser hdep hused hkey⟩

end Sample

/-! ### The cycles -/

theorem isLE_compare_iff {a b : String} : (compare a b).isLE = true ↔ a ≤ b := by
  change (compareOfLessAndEq a b).isLE = true ↔ a ≤ b
  rw [compareOfLessAndEq]
  split
  · next hlt => exact iff_of_true rfl (le_of_lt hlt)
  · next hlt =>
    split
    · next heq => exact iff_of_true rfl (le_of_eq heq)
    · next hne =>
      refine iff_of_false (by decide) fun hle => ?_
      exact hlt (lt_of_le_of_ne hle hne)

/-- The keys of a group in the order of their names. -/
def sorted (group : List Key) : List Key :=
  group.mergeSort fun a b => (compare a.name b.name).isLE

theorem perm_sorted (group : List Key) : (sorted group).Perm group :=
  List.mergeSort_perm _ _

theorem mem_sorted {group : List Key} : key ∈ sorted group ↔ key ∈ group :=
  (perm_sorted group).mem_iff

theorem map_name_sorted (group : List Key) : (sorted group).map Key.name =
    (group.map Key.name).mergeSort fun a b => (compare a b).isLE :=
  List.map_mergeSort fun _ _ _ _ => rfl

theorem pairwise_sorted {group : List Key} (hnodup : (group.map Key.name).Nodup) :
    ((sorted group).map Key.name).Pairwise (· < ·) := by
  have hle : ((sorted group).map Key.name).Pairwise fun a b => (compare a b).isLE = true := by
    rw [map_name_sorted]
    refine List.pairwise_mergeSort (fun a b c hab hbc => ?_) (fun a b => ?_) _
    · rw [isLE_compare_iff] at *
      exact le_trans hab hbc
    · rw [Bool.or_eq_true, isLE_compare_iff, isLE_compare_iff]
      exact le_total a b
  have hne : ((sorted group).map Key.name).Nodup :=
    ((perm_sorted group).map Key.name).nodup_iff.mpr hnodup
  exact (hle.and hne).imp fun h => lt_of_le_of_ne (isLE_compare_iff.mp h.1) h.2

/-- **A cycle**: all keys that need each other, two or more, which are those of declared types and
have their foreign names, in the order of these names. -/
structure IsCycle (decls : List Decl) (keys : List Key) : Prop where
  two_le : 2 ≤ keys.length
  increasing : (keys.map Key.name).Pairwise (· < ·)
  mem_iff : ∀ key ∈ keys, ∀ other, other ∈ keys ↔ NeedEachOther decls key other
  declared : ∀ key ∈ keys, ∃ type, first? decls key = some (.type type) ∧
    key.name = type.ident.foreign

/-- The cycles of some declarations, in the order of their groups. -/
def cycles (decls : List Decl) : List (List Key) :=
  ((groups (sift ∅ decls).1).filter (2 ≤ ·.length)).map sorted

theorem mem_cycles_iff {keys : List Key} : keys ∈ cycles decls ↔
    ∃ group ∈ groups (sift ∅ decls).1, 2 ≤ group.length ∧ sorted group = keys := by
  simp [cycles, and_assoc]

theorem isCycle_of_mem_cycles {keys : List Key} (h : keys ∈ cycles decls) :
    IsCycle decls keys := by
  obtain ⟨group, hgroup, htwo, rfl⟩ := mem_cycles_iff.mp h
  have htype : ∀ key ∈ group, ∃ type, first? decls key = some (.type type) ∧ key = type.key :=
    fun key hkey => (onCycle_iff_exists_group.mpr ⟨group, hgroup, htwo, hkey⟩).exists_type
  refine ⟨?_, pairwise_sorted ?_, fun key hkey other => ?_, fun key hkey => ?_⟩
  · rw [(perm_sorted group).length_eq]
    exact htwo
  · -- keys of types differ only by their names
    refine (nodup_of_mem_groups hgroup).map_on fun a ha b hb hname => ?_
    obtain ⟨_, -, rfl⟩ := htype a ha
    obtain ⟨_, -, rfl⟩ := htype b hb
    exact congrArg Key.type hname
  · rw [mem_sorted] at hkey ⊢
    exact mem_group_iff hgroup hkey
  · obtain ⟨type, hfirst, rfl⟩ := htype key (mem_sorted.mp hkey)
    exact ⟨type, hfirst, rfl⟩

theorem exists_mem_cycles_iff : (∃ keys ∈ cycles decls, key ∈ keys) ↔ OnCycle decls key := by
  rw [onCycle_iff_exists_group]
  constructor
  · rintro ⟨keys, hkeys, hkey⟩
    obtain ⟨group, hgroup, htwo, rfl⟩ := mem_cycles_iff.mp hkeys
    exact ⟨group, hgroup, htwo, mem_sorted.mp hkey⟩
  · rintro ⟨group, hgroup, htwo, hkey⟩
    exact ⟨sorted group, mem_cycles_iff.mpr ⟨group, hgroup, htwo, rfl⟩, mem_sorted.mpr hkey⟩

theorem nodup_flatten_cycles : (cycles decls).flatten.Nodup := by
  refine List.nodup_flatten.mpr ⟨fun keys hkeys => ?_, ?_⟩
  · obtain ⟨group, hgroup, -, rfl⟩ := mem_cycles_iff.mp hkeys
    exact (perm_sorted group).nodup_iff.mpr (nodup_of_mem_groups hgroup)
  · have hnodup : (groups (sift ∅ decls).1).flatten.Nodup := nodup_flatten_groups
    refine List.pairwise_map.mpr (((List.nodup_flatten.mp hnodup).2.filter _).imp ?_)
    intro earlier later hdisjoint key hearlier hlater
    exact hdisjoint (mem_sorted.mp hearlier) (mem_sorted.mp hlater)

theorem flatMap_groupDiagnostics {groups : List (List Key)} (hne : ∀ group ∈ groups, group ≠ []) :
    groups.flatMap groupDiagnostics =
      ((groups.filter (2 ≤ ·.length)).map sorted).map fun keys => .cycle (keys.map Key.name) := by
  induction groups with
  | nil => rfl
  | cons group groups ih =>
    have ih := ih fun other hother => hne other (List.mem_cons_of_mem _ hother)
    rcases group with _ | ⟨key, _ | ⟨other, keys⟩⟩
    · exact absurd rfl (hne [] List.mem_cons_self)
    · exact ih
    · rw [List.flatMap_cons, ih, groupDiagnostics, ← map_name_sorted]
      · rfl
      · rintro _ ⟨⟩

/-! ### Everything is accounted for -/

theorem nodup_emit : (emit decls).decls.Nodup :=
  pairwise_emit.imp fun h heq => h.1 (congrArg Decl.key? heq)

/-- **Nothing is lost and nothing is doubled**. What is emitted are the first declarations of
the keys that lie on no cycle, each once, also of those that need a key on a cycle. What is
reported are the later declarations, in order, and then the cycles, each of which holds all
keys that need each other and is told of by their names. -/
theorem emit_accounts (decls : List Decl) :
    (emit decls).decls.Nodup ∧
    (∀ decl, decl ∈ (emit decls).decls ↔
      ∃ key, first? decls key = some decl ∧ ¬ OnCycle decls key) ∧
    ∃ cycles : List (List Key),
      cycles.flatten.Nodup ∧
      (∀ key, (∃ keys ∈ cycles, key ∈ keys) ↔ OnCycle decls key) ∧
      (∀ keys ∈ cycles, IsCycle decls keys) ∧
      (emit decls).report.diagnostics = (reused decls).map reusedDiagnostic ++
        cycles.map fun keys => ⟨.cycle,
          "dropping dependency cycle: " ++ String.intercalate ", " (keys.map Key.name)⟩ := by
  refine ⟨nodup_emit, fun decl => mem_emit_iff, cycles decls, nodup_flatten_cycles,
    fun key => exists_mem_cycles_iff, fun keys => isCycle_of_mem_cycles, ?_⟩
  rw [diagnostics_emit, flatMap_groupDiagnostics fun _ => ne_nil_of_mem_groups]
  rfl

end Bindery.Emission
