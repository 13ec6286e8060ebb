import Bindery.Graph.Basic
import Mathlib.Data.List.Nodup

/-!
# Graphs by the names of their nodes

The nodes of a graph are numbers, but those who build it only know names. This file
says what adding nodes and edges does to a graph **as its names show it**: which names
have a node, and which pairs of them have an edge (`Bindery.Graph.Links`).

That makes sense as long as names and numbers belong to each other one to one
(`Bindery.Graph.Named`), which every way of growing a graph keeps. A number that was given stays as
it is (`Bindery.Graph.keys_prefix_addEdge`).
-/

namespace Bindery.Graph

variable {κ : Type} [Ord κ] {graph : Graph κ}

/-! ### Names and numbers -/

/-- **Names and numbers belong to each other**: the index tells the number of a name exactly
if the name stands at that number. -/
def Named (graph : Graph κ) : Prop :=
  ∀ (key : κ) (id : ℕ), graph.id? key = some id ↔ graph.keys[id]? = some key

/-- **There is an edge** between the nodes of these names. -/
def Links (graph : Graph κ) (source target : κ) : Prop :=
  ∃ (i j : ℕ) (targets : List ℕ), graph.keys[i]? = some source ∧ graph.keys[j]? = some target ∧
    graph.edges[i]? = some targets ∧ j ∈ targets

/-- **What a graph shows**: the names of its nodes, and the edges between them. -/
structure Shows (graph : Graph κ) (nodes : κ → Prop) (edges : κ → κ → Prop) : Prop where
  named : graph.Named
  mem_keys : ∀ key, key ∈ graph.keys ↔ nodes key
  links : ∀ source target, graph.Links source target ↔ edges source target

theorem Shows.congr {nodes nodes' : κ → Prop} {edges edges' : κ → κ → Prop}
    (h : graph.Shows nodes edges) (hnodes : ∀ key, nodes key ↔ nodes' key)
    (hedges : ∀ source target, edges source target ↔ edges' source target) :
    graph.Shows nodes' edges' where
  named := h.named
  mem_keys key := (h.mem_keys key).trans (hnodes key)
  links source target := (h.links source target).trans (hedges source target)

theorem Named.mem_keys_iff (h : graph.Named) {key : κ} :
    key ∈ graph.keys ↔ ∃ id, graph.id? key = some id := by
  rw [Array.mem_iff_getElem?]
  exact exists_congr fun id => (h key id).symm

theorem Named.id_inj (h : graph.Named) {key : κ} {i j : ℕ} (hi : graph.keys[i]? = some key)
    (hj : graph.keys[j]? = some key) : i = j :=
  Option.some.inj (((h key i).mpr hi).symm.trans ((h key j).mpr hj))

/-- No two nodes have the same name. -/
theorem Named.key_injective (h : graph.Named) : Function.Injective graph.key := by
  intro u v huv
  have hu : graph.keys[(u : ℕ)]? = some (graph.key u) := Array.getElem?_eq_getElem u.isLt
  have hv : graph.keys[(v : ℕ)]? = some (graph.key v) := Array.getElem?_eq_getElem v.isLt
  exact Fin.ext (h.id_inj (huv ▸ hu) hv)

/-- The names of the nodes, in the order of their numbers. -/
theorem toList_keys (graph : Graph κ) :
    graph.keys.toList = (List.finRange graph.size).map graph.key :=
  List.ext_getElem (by simp) fun i _ _ => by simp [key]

theorem Named.nodup_keys (h : graph.Named) : graph.keys.toList.Nodup := by
  rw [toList_keys]
  exact (List.nodup_finRange _).map h.key_injective

theorem mem_keys_iff_exists_key {key : κ} : key ∈ graph.keys ↔ ∃ u, graph.key u = key := by
  rw [Array.mem_iff_getElem]
  constructor
  · rintro ⟨i, hi, rfl⟩
    exact ⟨⟨i, hi⟩, rfl⟩
  · rintro ⟨u, rfl⟩
    exact ⟨u, u.isLt, rfl⟩

/-- An edge between names is an edge between their nodes. -/
theorem links_iff {source target : κ} : graph.Links source target ↔
    ∃ u v, graph.key u = source ∧ graph.key v = target ∧ v ∈ graph.successors u := by
  constructor
  · rintro ⟨i, j, targets, hi, hj, hedges, hmem⟩
    obtain ⟨hi', hi⟩ := Array.getElem?_eq_some_iff.mp hi
    obtain ⟨hj', hj⟩ := Array.getElem?_eq_some_iff.mp hj
    obtain ⟨hlt, rfl⟩ := Array.getElem?_eq_some_iff.mp hedges
    exact ⟨⟨i, hi'⟩, ⟨j, hj'⟩, hi, hj, List.mem_pmap.mpr ⟨j, hmem, rfl⟩⟩
  · rintro ⟨u, v, rfl, rfl, hmem⟩
    obtain ⟨j, hj, rfl⟩ := List.mem_pmap.mp hmem
    have hlt : (u : ℕ) < graph.edges.size := graph.size_edges.symm ▸ u.isLt
    exact ⟨u, j, graph.edges[(u : ℕ)], Array.getElem?_eq_getElem u.isLt,
      Array.getElem?_eq_getElem _, Array.getElem?_eq_getElem hlt, hj⟩

/-! ### The empty graph -/

variable [Std.TransOrd κ]

theorem shows_empty : (empty : Graph κ).Shows (fun _ => False) fun _ _ => False where
  named key id := by simp [id?, empty]
  mem_keys key := by simp [empty]
  links source target := by simp [Links, empty]

/-! ### Adding a node -/

theorem addNode_of_some {key : κ} {id : ℕ} (h : graph.id? key = some id) :
    graph.addNode key = graph := by
  rw [addNode, h]

/-- A name that is not known gets the next number, and its node has no edges. -/
theorem addNode_of_none {key : κ} (h : graph.id? key = none) :
    (graph.addNode key).keys = graph.keys.push key ∧
      (graph.addNode key).index = graph.index.insert key graph.size ∧
      (graph.addNode key).edges = graph.edges.push [] := by
  rw [addNode]
  split
  · next heq => simp [heq] at h
  · exact ⟨rfl, rfl, rfl⟩

theorem links_addNode {key source target : κ} :
    (graph.addNode key).Links source target ↔ graph.Links source target := by
  rcases hid : graph.id? key with _ | id
  · obtain ⟨hkeys, -, hedges⟩ := addNode_of_none hid
    rw [Links, Links, hkeys, hedges]
    constructor
    · rintro ⟨i, j, targets, hi, hj, htargets, hmem⟩
      rw [Array.getElem?_push] at htargets
      split at htargets
      · -- the new node has no edges yet
        cases htargets
        exact absurd hmem List.not_mem_nil
      · next hne =>
        have hjlt := graph.edges_lt (Array.mem_of_getElem? htargets) hmem
        refine ⟨i, j, targets, ?_, ?_, htargets, hmem⟩
        · rwa [Array.getElem?_push, if_neg (graph.size_edges ▸ hne)] at hi
        · rwa [Array.getElem?_push, if_neg (Nat.ne_of_lt hjlt)] at hj
    · rintro ⟨i, j, targets, hi, hj, htargets, hmem⟩
      have hlt : ∀ {k : ℕ} {name : κ}, graph.keys[k]? = some name → k ≠ graph.keys.size :=
        fun hk => Nat.ne_of_lt (Array.getElem?_eq_some_iff.mp hk).1
      refine ⟨i, j, targets, ?_, ?_, ?_, hmem⟩
      · rwa [Array.getElem?_push, if_neg (hlt hi)]
      · rwa [Array.getElem?_push, if_neg (hlt hj)]
      · rwa [Array.getElem?_push, if_neg (graph.size_edges ▸ hlt hi)]
  · rw [addNode_of_some hid]

theorem mem_keys_addNode (h : graph.Named) {key name : κ} :
    name ∈ (graph.addNode key).keys ↔ name = key ∨ name ∈ graph.keys := by
  rcases hid : graph.id? key with _ | id
  · obtain ⟨hkeys, -, -⟩ := addNode_of_none hid
    rw [hkeys, Array.mem_push, or_comm]
  · have hmem : key ∈ graph.keys := h.mem_keys_iff.mpr ⟨id, hid⟩
    rw [addNode_of_some hid]
    exact ⟨Or.inr, fun hname => hname.elim (fun heq => heq ▸ hmem) fun hname => hname⟩

theorem Named.addNode [Std.LawfulEqOrd κ] (h : graph.Named) (key : κ) :
    (graph.addNode key).Named := by
  rcases hid : graph.id? key with _ | id
  · obtain ⟨hkeys, hindex, -⟩ := addNode_of_none hid
    intro name i
    have hold := h name i
    -- the name is new, so it stands at no earlier number
    have hnew : ∀ {k : ℕ}, graph.keys[k]? ≠ some key := fun hk => by
      rw [(h key _).mpr hk] at hid
      cases hid
    rw [id?] at hold
    rw [id?, hkeys, hindex, Std.TreeMap.getElem?_insert, Array.getElem?_push]
    by_cases hname : key = name
    · subst hname
      rw [if_pos Std.ReflCmp.compare_self]
      split
      · next hi => simp [hi]
      · next hi =>
        constructor
        · intro heq
          exact absurd (Option.some.inj heq).symm hi
        · exact fun hk => absurd hk hnew
    · rw [if_neg fun heq => hname (Std.LawfulEqCmp.eq_of_compare heq), hold]
      split
      · next hi => simp [hi, hname]
      · exact Iff.rfl
  · rw [addNode_of_some hid]
    exact h

/-- **Adding a node** shows its name. -/
theorem Shows.addNode [Std.LawfulEqOrd κ] {nodes : κ → Prop} {edges : κ → κ → Prop}
    (h : graph.Shows nodes edges) (key : κ) :
    (graph.addNode key).Shows (fun name => name = key ∨ nodes name) edges where
  named := h.named.addNode key
  mem_keys name := by rw [mem_keys_addNode h.named, h.mem_keys]
  links source target := by rw [links_addNode, h.links]

/-! ### Adding an edge -/

omit [Std.TransOrd κ] in
theorem mem_addTarget {targets : List ℕ} {target id : ℕ} :
    id ∈ addTarget targets target ↔ id ∈ targets ∨ id = target := by
  rw [addTarget]
  split
  · next hmem => exact ⟨Or.inl, fun hid => hid.elim (fun hid => hid) fun heq => heq ▸ hmem⟩
  · simp

omit [Std.TransOrd κ] in
theorem getElem?_edges_addEdgeBetween {i j k : ℕ} {hj : j < graph.size} :
    (graph.addEdgeBetween i j hj).edges[k]? =
      if i = k then graph.edges[k]?.map (addTarget · j) else graph.edges[k]? :=
  Array.getElem?_modify

omit [Std.TransOrd κ] in
theorem links_addEdgeBetween {i j : ℕ} {hj : j < graph.size} {source target a b : κ}
    (hsource : graph.keys[i]? = some source) (htarget : graph.keys[j]? = some target) :
    (graph.addEdgeBetween i j hj).Links a b ↔ graph.Links a b ∨ a = source ∧ b = target := by
  constructor
  · rintro ⟨i', j', targets, hi', hj', htargets, hmem⟩
    rw [getElem?_edges_addEdgeBetween] at htargets
    split at htargets
    · next heq =>
      subst heq
      obtain ⟨old, hold, rfl⟩ := Option.map_eq_some_iff.mp htargets
      rcases mem_addTarget.mp hmem with hmem | rfl
      · exact Or.inl ⟨i, j', old, hi', hj', hold, hmem⟩
      · exact Or.inr ⟨Option.some.inj (hi'.symm.trans hsource),
          Option.some.inj (hj'.symm.trans htarget)⟩
    · exact Or.inl ⟨i', j', targets, hi', hj', htargets, hmem⟩
  · rintro (⟨i', j', targets, hi', hj', htargets, hmem⟩ | ⟨rfl, rfl⟩)
    · -- an old edge stays, also one out of the node whose targets grow
      refine ⟨i', j', if i = i' then addTarget targets j else targets, hi', hj', ?_, ?_⟩
      · rw [getElem?_edges_addEdgeBetween, htargets]
        split <;> rfl
      · split
        · exact mem_addTarget.mpr (Or.inl hmem)
        · exact hmem
    · have hlt : i < graph.edges.size :=
        graph.size_edges.symm ▸ (Array.getElem?_eq_some_iff.mp hsource).1
      refine ⟨i, j, addTarget graph.edges[i] j, hsource, htarget, ?_,
        mem_addTarget.mpr (Or.inr rfl)⟩
      rw [getElem?_edges_addEdgeBetween, if_pos rfl, Array.getElem?_eq_getElem hlt]
      rfl

variable [Std.LawfulEqOrd κ]

/-- Adding an edge adds its two nodes, the source first, and then the edge between them. -/
theorem addEdge_eq (h : graph.Named) (source target : κ) :
    ∃ (i j : ℕ) (hj : j < ((graph.addNode source).addNode target).size),
      ((graph.addNode source).addNode target).keys[i]? = some source ∧
      ((graph.addNode source).addNode target).keys[j]? = some target ∧
      graph.addEdge source target =
        ((graph.addNode source).addNode target).addEdgeBetween i j hj := by
  have hboth := (h.addNode source).addNode target
  have hsource : source ∈ ((graph.addNode source).addNode target).keys :=
    (mem_keys_addNode (h.addNode source)).mpr (Or.inr ((mem_keys_addNode h).mpr (Or.inl rfl)))
  have htarget : target ∈ ((graph.addNode source).addNode target).keys :=
    (mem_keys_addNode (h.addNode source)).mpr (Or.inl rfl)
  obtain ⟨i, hi⟩ := hboth.mem_keys_iff.mp hsource
  obtain ⟨j, hj⟩ := hboth.mem_keys_iff.mp htarget
  refine ⟨i, j, index_lt _ hj, (hboth source i).mp hi, (hboth target j).mp hj, ?_⟩
  rw [addEdge]
  split
  · next i' j' hi' hj' =>
    cases hi.symm.trans hi'
    cases hj.symm.trans hj'
    rfl
  · next hnot => exact absurd hj (hnot i j hi)

theorem Named.addEdge (h : graph.Named) (source target : κ) :
    (graph.addEdge source target).Named := by
  obtain ⟨i, j, hj, -, -, heq⟩ := addEdge_eq h source target
  rw [heq]
  exact (h.addNode source).addNode target

theorem mem_keys_addEdge (h : graph.Named) {source target name : κ} :
    name ∈ (graph.addEdge source target).keys ↔
      name = source ∨ name = target ∨ name ∈ graph.keys := by
  obtain ⟨i, j, hj, -, -, heq⟩ := addEdge_eq h source target
  have hnodes : name ∈ ((graph.addNode source).addNode target).keys ↔
      name = target ∨ name = source ∨ name ∈ graph.keys := by
    rw [mem_keys_addNode (h.addNode source), mem_keys_addNode h]
  rw [heq]
  exact hnodes.trans or_left_comm

theorem links_addEdge (h : graph.Named) {source target a b : κ} :
    (graph.addEdge source target).Links a b ↔
      graph.Links a b ∨ a = source ∧ b = target := by
  obtain ⟨i, j, hj, hsource, htarget, heq⟩ := addEdge_eq h source target
  rw [heq, links_addEdgeBetween hsource htarget, links_addNode, links_addNode]

/-- **Adding an edge** shows the names of both its nodes, this edge, and no other. -/
theorem Shows.addEdge {nodes : κ → Prop} {edges : κ → κ → Prop} (h : graph.Shows nodes edges)
    (source target : κ) :
    (graph.addEdge source target).Shows
      (fun name => name = source ∨ name = target ∨ nodes name)
      fun a b => edges a b ∨ a = source ∧ b = target where
  named := h.named.addEdge source target
  mem_keys name := by rw [mem_keys_addEdge h.named, h.mem_keys]
  links a b := by rw [links_addEdge h.named, h.links]

/-! ### Numbers stay -/

omit [Std.LawfulEqOrd κ] in
/-- A node that is added comes after those that are there. -/
theorem keys_prefix_addNode (key : κ) : graph.keys.toList <+: (graph.addNode key).keys.toList := by
  rcases hid : graph.id? key with _ | id
  · rw [(addNode_of_none hid).1, Array.toList_push]
    exact List.prefix_append _ _
  · simp only [addNode_of_some hid, List.prefix_refl]

theorem keys_prefix_addEdge (h : graph.Named) (source target : κ) :
    graph.keys.toList <+: (graph.addEdge source target).keys.toList := by
  obtain ⟨i, j, hj, -, -, heq⟩ := addEdge_eq h source target
  rw [heq]
  exact (keys_prefix_addNode source).trans (keys_prefix_addNode target)

theorem keys_prefix_foldl_addEdge (h : graph.Named) (source : κ) (targets : List κ) :
    graph.keys.toList <+:
      (targets.foldl (fun graph target => graph.addEdge source target) graph).keys.toList := by
  induction targets generalizing graph with
  | nil => exact List.prefix_refl _
  | cons target targets ih =>
    exact (keys_prefix_addEdge h source target).trans (ih (h.addEdge source target))

end Bindery.Graph
