import Bindery.Proofs.Emission.Order
import Bindery.Proofs.Graph.Roots

/-!
# Emission leaves a safe order alone

Declarations are **well placed** (`Bindery.Emission.WellPlaced`) if each has a key of its own, and
whatever it depends on is declared before it, if it is declared at all. Then their keys get their
numbers in the dependency graph in the order of the declarations
(`Bindery.Emission.WellPlaced.filter_keys_graph`), although keys that are only depended upon get
theirs in between. So a key that is declared is only needed by keys with greater numbers, and the
declarations come out in the order in which they are (`Bindery.Emission.WellPlaced.emit_eq`).

What is emitted is well placed itself, so to emit it again changes nothing
(`Bindery.Emission.emit_stable`).
-/

namespace Bindery.Emission

open Decl (Key)

variable {decls : List Decl} {key : Key} {decl : Decl}

/-! ### Well placed declarations -/

/-- **Declarations are well placed**: each has a key, no two have the same, and what one of them
depends on is declared before it, if it is declared. -/
structure WellPlaced (decls : List Decl) : Prop where
  keyed : ∀ decl ∈ decls, decl.key? ≠ none
  keys_ne : decls.Pairwise fun earlier later => earlier.key? ≠ later.key?
  declared_lt : ∀ (i j : ℕ) (user used : Decl) (key : Key), decls[i]? = some user →
    key ∈ user.dependencies → decls[j]? = some used → used.key? = some key → j < i

/-- Nothing depends on what is declared later. -/
theorem WellPlaced.pairwise (h : WellPlaced decls) : decls.Pairwise fun earlier later =>
    ∀ key, later.key? = some key → key ∉ earlier.dependencies := by
  refine List.pairwise_iff_getElem.mpr fun i j hi hj hlt key hkey hdep => ?_
  have hback := h.declared_lt i j _ _ key (List.getElem?_eq_getElem hi) hdep
    (List.getElem?_eq_getElem hj) hkey
  exact absurd hlt hback.asymm

theorem WellPlaced.of_pairwise (hkeyed : ∀ decl ∈ decls, decl.key? ≠ none)
    (h : decls.Pairwise fun earlier later => earlier.key? ≠ later.key? ∧
      ∀ key, later.key? = some key → key ∉ earlier.dependencies) : WellPlaced decls where
  keyed := hkeyed
  keys_ne := h.imp And.left
  declared_lt i j user used key huser hdep hused hkey := by
    obtain ⟨hi, rfl⟩ := List.getElem?_eq_some_iff.mp huser
    obtain ⟨hj, rfl⟩ := List.getElem?_eq_some_iff.mp hused
    rcases lt_trichotomy i j with hlt | rfl | hlt
    · have hpair := List.pairwise_iff_getElem.mp h i j hi hj hlt
      exact absurd hdep (hpair.2 key hkey)
    · exact absurd hdep (Decl.notMem_dependencies_of_key? hkey)
    · exact hlt

/-- **What is emitted is well placed.** -/
theorem wellPlaced_emit (decls : List Decl) : WellPlaced (emit decls).decls := by
  refine .of_pairwise (fun decl hdecl => ?_) pairwise_emit
  obtain ⟨key, hfirst, -⟩ := mem_emit_iff.mp hdecl
  rw [key?_of_first? hfirst]
  exact Option.some_ne_none key

/-! ### What is kept -/

/-- Declarations with keys of their own, none of which was seen, are all kept. -/
theorem sift_eq_of_keys_ne {seen : Std.TreeSet Key}
    (hnew : ∀ decl ∈ decls, ∃ key, decl.key? = some key ∧ key ∉ seen)
    (hne : decls.Pairwise fun earlier later => earlier.key? ≠ later.key?) :
    (sift seen decls).1.map Prod.snd = decls ∧ (sift seen decls).2.diagnostics = [] := by
  induction decls generalizing seen with
  | nil => exact ⟨rfl, rfl⟩
  | cons head decls ih =>
    obtain ⟨⟨key, hkey, hunseen⟩, hnew⟩ := List.forall_mem_cons.mp hnew
    obtain ⟨hhead, hne⟩ := List.pairwise_cons.mp hne
    obtain ⟨hkept, hreport⟩ := sift_cons_new hkey hunseen
    have hnext : ∀ decl ∈ decls, ∃ other, decl.key? = some other ∧ other ∉ seen.insert key := by
      intro decl hdecl
      obtain ⟨other, hother, hnot⟩ := hnew decl hdecl
      refine ⟨other, hother, fun hmem => (mem_insert_iff.mp hmem).elim (fun heq => ?_) hnot⟩
      exact hhead decl hdecl (by rw [hkey, hother, heq])
    obtain ⟨hdecls, hnil⟩ := ih hnext hne
    rw [hkept, hreport, List.map_cons, hdecls]
    exact ⟨rfl, hnil⟩

theorem WellPlaced.sift_eq (h : WellPlaced decls) :
    (sift ∅ decls).1.map Prod.snd = decls ∧ (sift ∅ decls).2.diagnostics = [] := by
  refine sift_eq_of_keys_ne (fun decl hdecl => ?_) h.keys_ne
  obtain ⟨key, hkey⟩ := Option.ne_none_iff_exists'.mp (h.keyed decl hdecl)
  exact ⟨key, hkey, Std.TreeSet.not_mem_emptyc⟩

/-- The keys that are declared, in order. -/
def declaredKeys (decls : List Decl) : List Key := (sift ∅ decls).1.map Prod.fst

theorem mem_declaredKeys : key ∈ declaredKeys decls ↔ (first? decls key).isSome := by
  rw [declaredKeys, List.mem_map, Option.isSome_iff_exists]
  constructor
  · rintro ⟨⟨key, decl⟩, hmem, rfl⟩
    exact ⟨decl, mem_sift.mp hmem⟩
  · rintro ⟨decl, hfirst⟩
    exact ⟨(key, decl), mem_sift.mpr hfirst, rfl⟩

theorem filterMap_declaredKeys :
    (declaredKeys decls).filterMap (first? decls) = (sift ∅ decls).1.map Prod.snd := by
  rw [declaredKeys, List.filterMap_map, ← List.filterMap_eq_map]
  refine List.filterMap_congr fun pair hpair => ?_
  exact mem_sift.mp hpair

/-! ### Numbers -/

/-- The keys of declarations get the next numbers, if none of them has a number before. -/
theorem sublist_keys_foldl_addDecl {graph : Graph Key} {nodes : Key → Prop}
    {edges : Key → Key → Prop} {before : List Key} {kept : List (Key × Decl)}
    (h : graph.Shows nodes edges) (hbefore : before.Sublist graph.keys.toList)
    (hnew : ∀ pair ∈ kept, ¬ nodes pair.1)
    (hkept : kept.Pairwise fun earlier later =>
      earlier.1 ≠ later.1 ∧ later.1 ∉ earlier.2.dependencies) :
    (before ++ kept.map Prod.fst).Sublist
      (kept.foldl (fun graph (key, decl) => addDecl graph key decl) graph).keys.toList := by
  induction kept generalizing graph nodes edges before with
  | nil => simpa using hbefore
  | cons pair kept ih =>
    obtain ⟨key, decl⟩ := pair
    obtain ⟨hhead, hkept⟩ := List.pairwise_cons.mp hkept
    obtain ⟨hkey, hnew⟩ := List.forall_mem_cons.mp hnew
    have hnone : graph.id? key = none := by
      refine Option.eq_none_iff_forall_ne_some.mpr fun id hid => hkey ?_
      exact (h.mem_keys key).mp (h.named.mem_keys_iff.mpr ⟨id, hid⟩)
    have hnext : (before ++ [key]).Sublist (addDecl graph key decl).keys.toList := by
      have hpushed : (before ++ [key]).Sublist (graph.addNode key).keys.toList := by
        rw [(Graph.addNode_of_none hnone).1, Array.toList_push]
        exact hbefore.append (List.Sublist.refl _)
      exact hpushed.trans
        (Graph.keys_prefix_foldl_addEdge (h.named.addNode key) key _).sublist
    have hrest := ih (shows_addDecl h key decl) hnext (fun other hother => ?_) hkept
    · rw [List.append_assoc] at hrest
      exact hrest
    · rintro (heq | hdep | hnode)
      · exact (hhead other hother).1 heq.symm
      · exact (hhead other hother).2 hdep
      · exact hnew other hother hnode

namespace WellPlaced

variable (h : WellPlaced decls)

include h

theorem pairwise_kept : (sift ∅ decls).1.Pairwise fun earlier later =>
    earlier.1 ≠ later.1 ∧ later.1 ∉ earlier.2.dependencies := by
  have hkeys : (sift ∅ decls).1.Pairwise fun earlier later => earlier.1 ≠ later.1 :=
    List.pairwise_map.mp nodup_keys_sift
  have hdeps := h.pairwise
  rw [← h.sift_eq.1, List.pairwise_map] at hdeps
  refine (hkeys.and hdeps).imp_of_mem fun _ hlater hpair => ⟨hpair.1, ?_⟩
  exact hpair.2 _ (key?_of_first? (mem_sift.mp hlater))

/-- No declared key needs one that is declared later. -/
theorem pairwise_declaredKeys : (declaredKeys decls).Pairwise fun a b => ¬ Needs decls a b := by
  refine List.pairwise_map.mpr (h.pairwise_kept.imp_of_mem fun hearlier _ hpair => ?_)
  rintro ⟨decl, hfirst, hdep⟩
  cases hfirst.symm.trans (mem_sift.mp hearlier)
  exact hpair.2 hdep

/-- **The keys that are declared have their numbers in the order of the declarations.** -/
theorem filter_keys_graph :
    (graph (sift ∅ decls).1).keys.toList.filter (fun key => (first? decls key).isSome) =
      declaredKeys decls := by
  have hsub : (declaredKeys decls).Sublist (graph (sift ∅ decls).1).keys.toList :=
    sublist_keys_foldl_addDecl Graph.shows_empty (List.nil_sublist _) (fun _ _ hfalse => hfalse)
      h.pairwise_kept
  have hnodup := (shows_graph decls).named.nodup_keys
  have hall : (declaredKeys decls).filter (fun key => (first? decls key).isSome) =
      declaredKeys decls := List.filter_eq_self.mpr fun key hkey => mem_declaredKeys.mp hkey
  -- a part of the keys with the same members is all that is filtered out of them
  have hfilter := hsub.filter fun key => (first? decls key).isSome
  rw [hall] at hfilter
  refine (hfilter.eq_of_length_le (List.Subperm.length_le ?_)).symm
  refine List.subperm_of_subset (hnodup.filter _) fun key hkey => ?_
  exact mem_declaredKeys.mpr (List.mem_filter.mp hkey).2

/-- A declared key is needed by later ones only. -/
theorem le_of_edge {u v : Fin (graph (sift ∅ decls).1).size}
    (hedge : v ∈ (graph (sift ∅ decls).1).successors u)
    (hv : (first? decls ((graph (sift ∅ decls).1).key v)).isSome) :
    (first? decls ((graph (sift ∅ decls).1).key u)).isSome ∧ v ≤ u := by
  have hneeds := (shows_graph decls).edge_iff.mp hedge
  obtain ⟨decl, hfirst, -⟩ := id hneeds
  have hu : (first? decls ((graph (sift ∅ decls).1).key u)).isSome := by rw [hfirst]; rfl
  refine ⟨hu, le_of_not_gt fun hlt => ?_⟩
  have hpairwise := h.pairwise_declaredKeys
  rw [← h.filter_keys_graph, List.pairwise_filter] at hpairwise
  exact List.pairwise_iff_getElem.mp hpairwise u v u.isLt v.isLt hlt hu hv hneeds

/-! ### What is emitted -/

/-- **The declared keys come in their own order** in the groups. -/
theorem filter_flatten_groups :
    (groups (sift ∅ decls).1).flatten.filter (fun key => (first? decls key).isSome) =
      declaredKeys decls := by
  have hcounts := Graph.filter_flatten_components
    (fun u => (first? decls ((graph (sift ∅ decls).1).key u)).isSome)
    fun u v => h.le_of_edge
  rw [← h.filter_keys_graph, Graph.toList_keys, groups, ← List.map_flatten, List.filter_map,
    List.filter_map]
  exact congrArg _ hcounts

/-- No key lies on a cycle. -/
theorem not_onCycle (key : Key) : ¬ OnCycle decls key := by
  rintro ⟨other, hne, hboth⟩
  have hdeclared : ∀ {a b : Key}, b ≠ a → NeedEachOther decls a b →
      (first? decls a).isSome ∧ ∃ u, (graph (sift ∅ decls).1).key u = a := by
    intro a b hne hboth
    obtain ⟨type, hfirst, -⟩ := OnCycle.exists_type ⟨b, hne, hboth⟩
    refine ⟨by rw [hfirst]; rfl, Graph.mem_keys_iff_exists_key.mp ?_⟩
    exact ((shows_graph decls).mem_keys a).mpr (Or.inl ⟨_, hfirst⟩)
  obtain ⟨hkey, u, rfl⟩ := hdeclared hne hboth
  obtain ⟨hother, v, rfl⟩ := hdeclared hne.symm hboth.symm
  have hmutual : Graph.Mutual (graph (sift ∅ decls).1).successors u v :=
    ⟨(shows_graph decls).reaches_iff.mpr hboth.1, (shows_graph decls).reaches_iff.mpr hboth.2⟩
  have heq := Graph.eq_of_mutual
    (fun u => (first? decls ((graph (sift ∅ decls).1).key u)).isSome) (fun u v => h.le_of_edge)
    hmutual hkey hother
  exact hne (congrArg _ heq.symm)

theorem exists_eq_singleton {group : List Key} (hgroup : group ∈ groups (sift ∅ decls).1) :
    ∃ key, group = [key] := by
  obtain ⟨key, hkey⟩ := List.exists_mem_of_ne_nil _ (ne_nil_of_mem_groups hgroup)
  exact ⟨key, eq_singleton_of_not_onCycle hgroup hkey (h.not_onCycle key)⟩

/-- **Well placed declarations are emitted as they are**, and nothing is reported. -/
theorem emit_eq : (emit decls).decls = decls ∧ (emit decls).report.diagnostics = [] := by
  constructor
  · have hleft : ∀ group ∈ groups (sift ∅ decls).1,
        left decls group = group.filterMap (first? decls) := by
      intro group hgroup
      obtain ⟨key, rfl⟩ := h.exists_eq_singleton hgroup
      rw [left]
      cases hfirst : first? decls key <;> simp [hfirst]
    calc (emit decls).decls
      _ = (groups (sift ∅ decls).1).flatMap fun group => group.filterMap (first? decls) := by
        rw [decls_emit, List.flatMap_congr hleft]
      _ = (groups (sift ∅ decls).1).flatten.filterMap (first? decls) := by
        rw [List.filterMap_flatten, List.flatMap_def]
      _ = ((groups (sift ∅ decls).1).flatten.filter
            fun key => (first? decls key).isSome).filterMap (first? decls) := by
        rw [List.filterMap_filter]
        refine List.filterMap_congr fun key _ => ?_
        cases first? decls key <;> rfl
      _ = decls := by
        rw [h.filter_flatten_groups, filterMap_declaredKeys, h.sift_eq.1]
  · rw [diagnostics_emit, ← diagnostics_sift, h.sift_eq.2, List.nil_append, List.flatMap_eq_nil_iff]
    intro group hgroup
    obtain ⟨key, rfl⟩ := h.exists_eq_singleton hgroup
    rfl

end WellPlaced

/-- **Emission is stable, and doing it twice is doing it once**. Well placed declarations are
emitted as they are, with no diagnostics; and so is what was emitted before. -/
theorem emit_stable (decls : List Decl) :
    (WellPlaced decls → (emit decls).decls = decls ∧ (emit decls).report.diagnostics = []) ∧
      (emit (emit decls).decls).decls = (emit decls).decls ∧
      (emit (emit decls).decls).report.diagnostics = [] :=
  ⟨fun h => h.emit_eq, (wellPlaced_emit decls).emit_eq⟩

section Sample

/-- A type with fields of other types. -/
private def typeWith (name : String) (fields : List String) : Decl :=
  .type
    { body :=
        { ident := ⟨name, name⟩
          isAbstract := false
          fields := fields.map fun other => ⟨⟨other, other⟩, .declared ⟨other, other⟩⟩
          constructors := []
          methods := [] }
      ancestors := [] }

/-- A type after one that it needs, which is declared, and one that is not declared at all. -/
private def placed : List Decl :=
  [typeWith "Point" [], typeWith "Line" ["Point", "Color"],
    .global ⟨⟨"axis", "axis"⟩, .declared ⟨"Line", "Line"⟩⟩]

theorem emit_placed : WellPlaced placed ∧ (emit placed).decls = placed ∧
    (emit placed).report.diagnostics = [] := by
  have hpairwise : placed.Pairwise fun earlier later => earlier.key? ≠ later.key? ∧
      ∀ key ∈ later.key?, key ∉ earlier.dependencies := by decide +kernel
  have hplaced : WellPlaced placed := .of_pairwise (by decide +kernel) hpairwise
  exact ⟨hplaced, (emit_stable placed).1 hplaced⟩

end Sample

end Bindery.Emission
