import Bindery.Proofs.Graph.Components
import Bindery.Proofs.Graph.Growth

/-!
# Groups by the names of their nodes

What a graph shows is enough to say what its groups are. Read by their names
(`Bindery.Graph.namedGroups`), the groups hold each name of a node once; two names stand
in the same group if each is reached from the other along the edges that the graph shows;
and none of these edges leads to a later group.
-/

namespace Bindery.Graph

variable {κ : Type} [Ord κ]

/-- **The groups of a graph**, each node by its name. -/
def namedGroups (graph : Graph κ) : List (List κ) :=
  graph.components.map fun group => group.map graph.key

variable {graph : Graph κ} {nodes : κ → Prop} {edges : κ → κ → Prop}

namespace Shows

theorem edge_iff (h : graph.Shows nodes edges) {u v : Fin graph.size} :
    v ∈ graph.successors u ↔ edges (graph.key u) (graph.key v) := by
  rw [← h.links, links_iff]
  constructor
  · exact fun hedge => ⟨u, v, rfl, rfl, hedge⟩
  · rintro ⟨u', v', hu, hv, hedge⟩
    rwa [h.named.key_injective hu, h.named.key_injective hv] at hedge

theorem exists_key_of_edge (h : graph.Shows nodes edges) {a b : κ} (hedge : edges a b) :
    (∃ u, graph.key u = a) ∧ ∃ v, graph.key v = b := by
  obtain ⟨u, v, hu, hv, -⟩ := links_iff.mp ((h.links a b).mpr hedge)
  exact ⟨⟨u, hu⟩, v, hv⟩

/-- What is reached from a node along the edges by name is a node that is reached from it. -/
theorem reaches_of_names (h : graph.Shows nodes edges) {u : Fin graph.size} {b : κ}
    (hreach : Relation.ReflTransGen edges (graph.key u) b) :
    ∃ v, graph.key v = b ∧ Reaches graph.successors u v := by
  induction hreach with
  | refl => exact ⟨u, rfl, .refl⟩
  | tail _ hedge ih =>
    obtain ⟨v, rfl, hv⟩ := ih
    obtain ⟨-, w, rfl⟩ := h.exists_key_of_edge hedge
    exact ⟨w, rfl, hv.tail (h.edge_iff.mpr hedge)⟩

theorem reaches_iff (h : graph.Shows nodes edges) {u v : Fin graph.size} :
    Reaches graph.successors u v ↔ Relation.ReflTransGen edges (graph.key u) (graph.key v) := by
  constructor
  · exact fun hreach => hreach.lift graph.key fun _ _ hedge => h.edge_iff.mp hedge
  · intro hreach
    obtain ⟨w, hw, hreach⟩ := h.reaches_of_names hreach
    rwa [h.named.key_injective hw] at hreach

/-! ### The groups -/

theorem nodup_flatten_namedGroups (h : graph.Shows nodes edges) :
    graph.namedGroups.flatten.Nodup := by
  have hnodup : graph.components.flatten.Nodup :=
    List.nodup_iff_count_le_one.mpr fun u => (count_flatten_components graph u).le
  rw [namedGroups, ← List.map_flatten]
  exact hnodup.map h.named.key_injective

theorem mem_flatten_namedGroups (h : graph.Shows nodes edges) {key : κ} :
    key ∈ graph.namedGroups.flatten ↔ nodes key := by
  rw [← h.mem_keys, mem_keys_iff_exists_key, namedGroups, ← List.map_flatten, List.mem_map]
  constructor
  · rintro ⟨u, -, rfl⟩
    exact ⟨u, rfl⟩
  · rintro ⟨u, rfl⟩
    exact ⟨u, List.mem_flatten.mpr (mem_flatten_components graph u), rfl⟩

theorem mem_namedGroup_iff (h : graph.Shows nodes edges) {group : List κ} {a b : κ}
    (hgroup : group ∈ graph.namedGroups) (ha : a ∈ group) :
    b ∈ group ↔ Relation.ReflTransGen edges a b ∧ Relation.ReflTransGen edges b a := by
  obtain ⟨ids, hids, rfl⟩ := List.mem_map.mp hgroup
  obtain ⟨u, hu, rfl⟩ := List.mem_map.mp ha
  constructor
  · intro hb
    obtain ⟨v, hv, rfl⟩ := List.mem_map.mp hb
    obtain ⟨hto, hback⟩ := (mem_group_iff_mutual graph hids hu).mp hv
    exact ⟨h.reaches_iff.mp hto, h.reaches_iff.mp hback⟩
  · rintro ⟨hto, hback⟩
    obtain ⟨v, rfl, hreach⟩ := h.reaches_of_names hto
    exact List.mem_map_of_mem ((mem_group_iff_mutual graph hids hu).mpr
      ⟨hreach, h.reaches_iff.mpr hback⟩)

theorem pairwise_namedGroups (h : graph.Shows nodes edges) :
    graph.namedGroups.Pairwise fun earlier later =>
      ∀ a ∈ earlier, ∀ b ∈ later, ¬ edges a b := by
  refine List.pairwise_map.mpr ((pairwise_components graph).imp fun hordered a ha b hb => ?_)
  obtain ⟨u, hu, rfl⟩ := List.mem_map.mp ha
  obtain ⟨v, hv, rfl⟩ := List.mem_map.mp hb
  exact fun hedge => hordered u hu v hv (h.edge_iff.mpr hedge)

end Shows

theorem ne_nil_of_mem_namedGroups {group : List κ} (hgroup : group ∈ graph.namedGroups) :
    group ≠ [] := by
  obtain ⟨ids, hids, rfl⟩ := List.mem_map.mp hgroup
  exact fun hnil => ne_nil_of_mem_components graph hids (List.map_eq_nil_iff.mp hnil)

end Bindery.Graph
