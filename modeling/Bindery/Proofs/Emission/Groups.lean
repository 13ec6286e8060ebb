import Bindery.Proofs.Emission.Sifting
import Bindery.Proofs.Graph.Naming

/-!
# Groups of keys

The dependency graph of some declarations shows the keys that are declared or depended
upon, and an edge from each key to what its first declaration depends on
(`Bindery.Emission.Needs`). Its groups are thus read off the declarations alone: two keys
stand in the same group if each **needs** the other, directly or through others
(`Bindery.Emission.mem_group_iff`), and no key needs one of a later group
(`Bindery.Emission.pairwise_groups`).
-/

namespace Bindery.Emission

open Decl (Key)

/-! ### Needs -/

/-- **A key needs another**: its first declaration depends on it. -/
def Needs (decls : List Decl) (key other : Key) : Prop :=
  ∃ decl, first? decls key = some decl ∧ other ∈ decl.dependencies

/-- Two keys need each other, directly or through others. A key always needs itself, in no
step. -/
def NeedEachOther (decls : List Decl) (key other : Key) : Prop :=
  Relation.ReflTransGen (Needs decls) key other ∧ Relation.ReflTransGen (Needs decls) other key

/-- **A key lies on a cycle** through two or more keys. -/
def OnCycle (decls : List Decl) (key : Key) : Prop :=
  ∃ other, other ≠ key ∧ NeedEachOther decls key other

/-- A key that is declared or depended upon. -/
def Mentioned (decls : List Decl) (key : Key) : Prop :=
  (∃ decl, first? decls key = some decl) ∨ ∃ other, Needs decls other key

/-! ### The dependency graph -/

section Graph

variable {graph : Graph Key} {nodes : Key → Prop} {edges : Key → Key → Prop}

theorem shows_foldl_addEdge (h : graph.Shows nodes edges) {key : Key} (hkey : nodes key)
    (targets : List Key) :
    (targets.foldl (fun graph target => graph.addEdge key target) graph).Shows
      (fun name => name ∈ targets ∨ nodes name)
      fun a b => edges a b ∨ a = key ∧ b ∈ targets := by
  induction targets generalizing graph nodes edges with
  | nil => exact h.congr (fun name => by simp) fun a b => by simp
  | cons target targets ih =>
    refine (ih (h.addEdge key target) (Or.inl rfl)).congr (fun name => ?_) fun a b => ?_
    · constructor
      · rintro (hname | rfl | rfl | hname)
        · exact Or.inl (List.mem_cons_of_mem _ hname)
        · exact Or.inr hkey
        · exact Or.inl List.mem_cons_self
        · exact Or.inr hname
      · rintro (hname | hname)
        · rcases List.mem_cons.mp hname with rfl | hname
          · exact Or.inr (Or.inr (Or.inl rfl))
          · exact Or.inl hname
        · exact Or.inr (Or.inr (Or.inr hname))
    · simp only [List.mem_cons, or_assoc, and_or_left]

theorem shows_addDecl (h : graph.Shows nodes edges) (key : Key) (decl : Decl) :
    (addDecl graph key decl).Shows
      (fun name => name = key ∨ name ∈ decl.dependencies ∨ nodes name)
      fun a b => edges a b ∨ a = key ∧ b ∈ decl.dependencies := by
  refine (shows_foldl_addEdge (h.addNode key) (Or.inl rfl) _).congr (fun name => ?_) fun a b => ?_
  · rw [Std.TreeSet.mem_toList, or_left_comm]
  · rw [Std.TreeSet.mem_toList]

theorem shows_foldl_addDecl (h : graph.Shows nodes edges) (kept : List (Key × Decl)) :
    (kept.foldl (fun graph (key, decl) => addDecl graph key decl) graph).Shows
      (fun name => nodes name ∨
        ∃ key decl, (key, decl) ∈ kept ∧ (name = key ∨ name ∈ decl.dependencies))
      fun a b => edges a b ∨ ∃ decl, (a, decl) ∈ kept ∧ b ∈ decl.dependencies := by
  induction kept generalizing graph nodes edges with
  | nil => exact h.congr (fun name => by simp) fun a b => by simp
  | cons pair kept ih =>
    obtain ⟨key, decl⟩ := pair
    refine (ih (shows_addDecl h key decl)).congr (fun name => ?_) fun a b => ?_
    · constructor
      · rintro ((rfl | hname | hname) | ⟨key', decl', hmem, hname⟩)
        · exact Or.inr ⟨name, decl, List.mem_cons_self, Or.inl rfl⟩
        · exact Or.inr ⟨key, decl, List.mem_cons_self, Or.inr hname⟩
        · exact Or.inl hname
        · exact Or.inr ⟨key', decl', List.mem_cons_of_mem _ hmem, hname⟩
      · rintro (hname | ⟨key', decl', hmem, hname⟩)
        · exact Or.inl (Or.inr (Or.inr hname))
        · rcases List.mem_cons.mp hmem with heq | hmem
          · cases heq
            exact Or.inl (hname.imp_right Or.inl)
          · exact Or.inr ⟨key', decl', hmem, hname⟩
    · constructor
      · rintro ((hedge | ⟨rfl, hdep⟩) | ⟨decl', hmem, hdep⟩)
        · exact Or.inl hedge
        · exact Or.inr ⟨decl, List.mem_cons_self, hdep⟩
        · exact Or.inr ⟨decl', List.mem_cons_of_mem _ hmem, hdep⟩
      · rintro (hedge | ⟨decl', hmem, hdep⟩)
        · exact Or.inl (Or.inl hedge)
        · rcases List.mem_cons.mp hmem with heq | hmem
          · cases heq
            exact Or.inl (Or.inr ⟨rfl, hdep⟩)
          · exact Or.inr ⟨decl', hmem, hdep⟩

end Graph

variable {decls : List Decl} {a b key : Key} {group : List Key}

/-- **The dependency graph** of some declarations shows the keys that they mention and the
needs between them. -/
theorem shows_graph (decls : List Decl) :
    (graph (sift ∅ decls).1).Shows (Mentioned decls) (Needs decls) := by
  refine (shows_foldl_addDecl Graph.shows_empty (sift ∅ decls).1).congr (fun name => ?_)
    fun a b => ?_
  · simp only [mem_sift, false_or]
    constructor
    · rintro ⟨key, decl, hfirst, rfl | hdep⟩
      · exact Or.inl ⟨decl, hfirst⟩
      · exact Or.inr ⟨key, decl, hfirst, hdep⟩
    · rintro (⟨decl, hfirst⟩ | ⟨key, decl, hfirst, hdep⟩)
      · exact ⟨name, decl, hfirst, Or.inl rfl⟩
      · exact ⟨key, decl, hfirst, Or.inr hdep⟩
  · simp only [mem_sift, false_or]
    exact Iff.rfl

/-! ### Groups -/

theorem mem_flatten_groups :
    key ∈ (groups (sift ∅ decls).1).flatten ↔ Mentioned decls key :=
  (shows_graph decls).mem_flatten_namedGroups

theorem nodup_flatten_groups : (groups (sift ∅ decls).1).flatten.Nodup :=
  (shows_graph decls).nodup_flatten_namedGroups

/-- **A group holds the keys that need each other.** -/
theorem mem_group_iff (hgroup : group ∈ groups (sift ∅ decls).1) (ha : a ∈ group) :
    b ∈ group ↔ NeedEachOther decls a b :=
  (shows_graph decls).mem_namedGroup_iff hgroup ha

/-- **No key needs one of a later group.** -/
theorem pairwise_groups : (groups (sift ∅ decls).1).Pairwise fun earlier later =>
    ∀ a ∈ earlier, ∀ b ∈ later, ¬ Needs decls a b :=
  (shows_graph decls).pairwise_namedGroups

theorem ne_nil_of_mem_groups (hgroup : group ∈ groups (sift ∅ decls).1) : group ≠ [] :=
  Graph.ne_nil_of_mem_namedGroups hgroup

theorem nodup_of_mem_groups (hgroup : group ∈ groups (sift ∅ decls).1) : group.Nodup :=
  (List.nodup_flatten.mp nodup_flatten_groups).1 group hgroup

/-- A key that lies on no cycle is all of its group. -/
theorem eq_singleton_of_not_onCycle (hgroup : group ∈ groups (sift ∅ decls).1)
    (hkey : key ∈ group) (hcycle : ¬ OnCycle decls key) : group = [key] := by
  refine List.perm_singleton.mp ((List.perm_ext_iff_of_nodup (nodup_of_mem_groups hgroup)
    (List.nodup_singleton key)).mpr fun other => ?_)
  rw [List.mem_singleton]
  refine ⟨fun hother => ?_, fun heq => heq ▸ hkey⟩
  by_contra hne
  exact hcycle ⟨other, hne, (mem_group_iff hgroup hkey).mp hother⟩

/-- **A key stands alone** in its group if it is mentioned and lies on no cycle. -/
theorem singleton_mem_groups_iff :
    [key] ∈ groups (sift ∅ decls).1 ↔ Mentioned decls key ∧ ¬ OnCycle decls key := by
  constructor
  · intro hgroup
    refine ⟨mem_flatten_groups.mp (List.mem_flatten_of_mem hgroup List.mem_cons_self), ?_⟩
    rintro ⟨other, hne, hboth⟩
    have hmem := (mem_group_iff hgroup List.mem_cons_self).mpr hboth
    exact hne (List.mem_singleton.mp hmem)
  · rintro ⟨hmentioned, hcycle⟩
    obtain ⟨group, hgroup, hkey⟩ := List.mem_flatten.mp (mem_flatten_groups.mpr hmentioned)
    exact eq_singleton_of_not_onCycle hgroup hkey hcycle ▸ hgroup

/-! ### Who lies on a cycle -/

/-- **Only declared types lie on a cycle**: whoever needs something is declared, and whoever
is needed is a type. -/
theorem OnCycle.exists_type (h : OnCycle decls key) :
    ∃ type, first? decls key = some (.type type) ∧ key = type.key := by
  obtain ⟨other, hne, hto, hback⟩ := h
  -- the first step of the way there shows the declaration, the last one of the way back the type
  obtain heq | ⟨next, ⟨decl, hfirst, -⟩, -⟩ := Relation.ReflTransGen.cases_head hto
  · exact absurd heq.symm hne
  · obtain heq | ⟨last, -, ⟨user, -, hdep⟩⟩ := Relation.ReflTransGen.cases_tail hback
    · exact absurd heq.symm hne
    · obtain ⟨name, rfl⟩ := Decl.exists_of_mem_dependencies hdep
      obtain ⟨type, rfl, rfl⟩ := Decl.exists_of_key?_eq_type (key?_of_first? hfirst)
      exact ⟨type, hfirst, rfl⟩

/-- The keys that lie on a cycle are those of the groups of two or more. -/
theorem onCycle_iff_exists_group : OnCycle decls key ↔
    ∃ group ∈ groups (sift ∅ decls).1, 2 ≤ group.length ∧ key ∈ group := by
  constructor
  · intro hcycle
    obtain ⟨type, hfirst, -⟩ := hcycle.exists_type
    obtain ⟨group, hgroup, hkey⟩ :=
      List.mem_flatten.mp (mem_flatten_groups.mpr (Or.inl ⟨_, hfirst⟩))
    obtain ⟨other, hne, hboth⟩ := hcycle
    have hother := (mem_group_iff hgroup hkey).mpr hboth
    refine ⟨group, hgroup, ?_, hkey⟩
    rcases group with _ | ⟨head, _ | ⟨next, rest⟩⟩
    · exact absurd hkey List.not_mem_nil
    · exact absurd ((List.mem_singleton.mp hother).trans (List.mem_singleton.mp hkey).symm) hne
    · exact Nat.le_add_left 2 rest.length
  · rintro ⟨group, hgroup, htwo, hkey⟩
    by_contra hcycle
    rw [eq_singleton_of_not_onCycle hgroup hkey hcycle, List.length_singleton] at htwo
    omega

end Bindery.Emission
