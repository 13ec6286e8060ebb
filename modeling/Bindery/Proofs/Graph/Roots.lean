import Bindery.Proofs.Graph.Components
import Mathlib.Order.Fin.Basic

/-!
# Which group comes first

The walks start at the nodes in the order of their numbers. When a walk starts, all nodes with a
number less than that of its root are closed, and what it closes is reached from the root. So a node
whose group comes before that of a node with a lesser number has a reason for it: it is reached from
a node whose number is not greater than either (`Bindery.Graph.pairwise_components_early`).

Nodes that are the target of edges from one another with greater numbers only have no such reason.
They come in the order of their numbers, whatever other nodes come in between
(`Bindery.Graph.filter_flatten_components`).
-/

namespace Bindery.Graph

variable {n : ℕ}

/-- **A node comes early**, before another one: this has a lesser number only if the node is reached
from one whose number is not greater. -/
def Early (successors : Fin n → List (Fin n)) (v u : Fin n) : Prop :=
  u < v → ∃ w ≤ u, Reaches successors w v

namespace Search

variable {successors : Fin n → List (Fin n)} {search : Search n} {root : Fin n}

/-! ### One walk -/

/-- **Groups come early**: their nodes do, before those of later groups and before all that are not
closed. -/
structure Sorted (successors : Fin n → List (Fin n)) (search : Search n) : Prop where
  closed_early : ∀ v ∈ search.closed, ∀ u ∉ search.closed, Early successors v u
  groups_early : search.components.toList.Pairwise fun earlier later =>
    ∀ v ∈ earlier, ∀ u ∈ later, Early successors v u

/-- **What holds in the walk from a root**. The nodes with lesser numbers were closed before, and
the stack is reached from the root. -/
structure Rooted (successors : Fin n → List (Fin n)) (root : Fin n) (search : Search n) : Prop
    extends search.Sorted successors where
  below_closed : ∀ u < root, u ∈ search.closed
  stack_reached : ∀ v ∈ search.stack, Reaches successors root v

/-- **What a step does to the stack and the groups**: no group is found, and what comes on the stack
is the target of an edge from there, or nodes of the stack become one more group. -/
theorem Sound.step_cases (h : search.Sound successors settled) :
    ((search.step successors).components = search.components ∧
      ∀ v ∈ (search.step successors).stack,
        v ∈ search.stack ∨ ∃ u ∈ search.stack, v ∈ successors u) ∨
    ∃ group, (search.step successors).components.toList = search.components.toList ++ [group] ∧
      group ⊆ search.stack ∧ (search.step successors).stack ⊆ search.stack := by
  rcases hwork : search.work with _ | ⟨⟨node, _ | ⟨target, rest⟩⟩, work⟩
  · rw [step_nil hwork]
    exact Or.inl ⟨rfl, fun v hv => Or.inl hv⟩
  · have hnode := h.mem_stack_of_work_eq hwork
    rw [step_back hwork]
    rcases (h.linked.low_le node hnode).lt_or_eq with hlow | hroot
    · obtain ⟨caller, way, -, hleave⟩ := h.leave_of_lt hwork hlow
      rw [hleave]
      exact Or.inl ⟨rfl, fun v hv => Or.inl hv⟩
    · obtain ⟨members, below, hstack⟩ := List.append_of_mem hnode
      rw [h.leave_of_eq hwork hroot]
      refine Or.inr ⟨node :: members.reverse, components_close hstack h.stacked.onto, ?_, ?_⟩
      · exact fun v hv => ((h.stacked.mem_group_iff hstack).mp hv).1
      · have hbelow : ((search.onto work).close node).stack = below :=
          stack_close hstack h.stacked.onto
        rw [hbelow]
        exact fun v hv => ((h.mem_below_iff hstack).mp hv).1
  · have hnode : node ∈ search.stack :=
      h.mem_stack_of_mem_way (by simp [way, hwork])
    have hedge : target ∈ successors node :=
      h.led.rest_subset _ (hwork ▸ List.mem_cons_self) List.mem_cons_self
    rw [step_edge hwork]
    left
    split
    · refine ⟨rfl, fun v hv => ?_⟩
      rcases List.mem_cons.mp hv with rfl | hv
      · exact Or.inr ⟨node, hnode, hedge⟩
      · exact Or.inl hv
    · split <;> exact ⟨rfl, fun v hv => Or.inl hv⟩

/-- **A step of the walk from a root** keeps what holds in it. -/
theorem Rooted.step (hrooted : search.Rooted successors root)
    (h : search.Sound successors settled) : (search.step successors).Rooted successors root := by
  rcases h.step_cases with ⟨hcomponents, hstack⟩ | ⟨group, hcomponents, hgroup, hstack⟩
  · have hclosed : (search.step successors).closed = search.closed := by
      rw [closed, closed, hcomponents]
    refine ⟨⟨hclosed ▸ hrooted.closed_early, hcomponents ▸ hrooted.groups_early⟩,
      hclosed ▸ hrooted.below_closed, fun v hv => ?_⟩
    rcases hstack v hv with hold | ⟨u, hu, hedge⟩
    · exact hrooted.stack_reached v hold
    · exact (hrooted.stack_reached u hu).tail hedge
  · have hclosed : (search.step successors).closed = search.closed ++ group := by
      rw [closed, closed, hcomponents, List.flatten_append, List.flatten_singleton]
    refine ⟨⟨?_, ?_⟩, fun u hu => ?_, fun v hv => hrooted.stack_reached v (hstack hv)⟩
    · rw [hclosed]
      intro v hv u hu hlt
      have hopen : u ∉ search.closed := fun hmem => hu (List.mem_append_left _ hmem)
      rcases List.mem_append.mp hv with hv | hv
      · exact hrooted.closed_early v hv u hopen hlt
      · -- the root is what the group is reached from, and no open node has a lesser number
        have hle : root ≤ u := le_of_not_gt fun hbelow => hopen (hrooted.below_closed u hbelow)
        exact ⟨root, hle, hrooted.stack_reached v (hgroup hv)⟩
    · rw [hcomponents, List.pairwise_append]
      refine ⟨hrooted.groups_early, List.pairwise_singleton _ _, ?_⟩
      rintro earlier hearlier later hlater v hv u hu
      obtain rfl := List.mem_singleton.mp hlater
      exact hrooted.closed_early v (List.mem_flatten_of_mem hearlier hv) u
        (h.stacked.notMem_closed (hgroup hu))
    · exact hclosed ▸ List.mem_append_left _ (hrooted.below_closed u hu)

/-- A walk from a root keeps it up to its end. -/
theorem Rooted.run (hrooted : search.Rooted successors root)
    (h : search.Sound successors settled) :
    (Search.run successors search).Rooted successors root := by
  fun_induction Search.run successors search with
  | case1 search hwork => exact hrooted
  | case2 search hwork ih => exact ih (hrooted.step h) h.step

/-! ### All walks -/

section Walks

variable (h : search.Sound successors settled) (hwork : search.work = [])

include h hwork

theorem Sound.stack_eq_nil_of_work : search.stack = [] :=
  h.stack_eq_nil (by rw [way, hwork, List.map_nil])

/-- Between two walks all nodes that were entered are closed. -/
theorem Sound.mem_closed_of_entered {v : Fin n} (hv : search.Entered v) : v ∈ search.closed := by
  have hmem := (h.stacked.entered_iff v).mp hv
  rw [h.stack_eq_nil_of_work hwork] at hmem
  exact hmem.resolve_left List.not_mem_nil

theorem Sorted.visit (hsorted : search.Sorted successors) (hbelow : ∀ u < root, search.Entered u) :
    (Search.visit successors search root).Sorted successors := by
  rw [Search.visit]
  split
  · exact hsorted
  · next hindex =>
    have hstart := h.enter hindex (by simp [way, hwork]) fun _ _ hfalse => hfalse.elim
    have hrooted : (search.enter successors root).Rooted successors root := by
      refine ⟨⟨hsorted.closed_early, hsorted.groups_early⟩,
        fun u hu => h.mem_closed_of_entered hwork (hbelow u hu), fun v hv => ?_⟩
      rw [stack_enter, h.stack_eq_nil_of_work hwork, List.mem_singleton] at hv
      exact hv ▸ .refl
    exact (hrooted.run hstart).toSorted

theorem Sorted.foldl_visit {roots : List (Fin n)} (hsorted : search.Sorted successors)
    (hroots : roots.Pairwise (· < ·)) (hall : ∀ u, u ∈ roots ∨ search.Entered u) :
    (roots.foldl (Search.visit successors) search).Sorted successors := by
  induction roots generalizing search with
  | nil => exact hsorted
  | cons root roots ih =>
    obtain ⟨hleast, hroots⟩ := List.pairwise_cons.mp hroots
    obtain ⟨hsound, hend, hkept⟩ := h.visit hwork root
    refine ih hsound hend (hsorted.visit h hwork fun u hu => ?_) hroots fun u => ?_
    · -- a node with a lesser number than the least root that is left was visited
      refine (hall u).resolve_left fun hmem => ?_
      rcases List.mem_cons.mp hmem with rfl | hmem
      · exact absurd hu (lt_irrefl _)
      · exact absurd hu (hleast u hmem).asymm
    · rcases hall u with hmem | hentered
      · exact (List.mem_cons.mp hmem).elim (fun heq => Or.inr (hkept u (Or.inl heq))) Or.inl
      · exact Or.inr (hkept u (Or.inr hentered))

end Walks

theorem sorted_complete (successors : Fin n → List (Fin n)) :
    (complete successors).Sorted successors := by
  have hsorted : (initial n).Sorted successors :=
    ⟨fun v hv => by simp [initial, closed] at hv, List.Pairwise.nil⟩
  exact hsorted.foldl_visit sound_initial rfl (List.pairwise_lt_finRange n)
    fun u => Or.inl (List.mem_finRange u)

end Search

/-! ### The groups of a graph -/

section Groups

variable {κ : Type} [Ord κ] (graph : Graph κ)

/-- **The nodes of a group come early**, before those of all later groups. -/
theorem pairwise_components_early : graph.components.Pairwise fun earlier later =>
    ∀ v ∈ earlier, ∀ u ∈ later, Early graph.successors v u :=
  (Search.sorted_complete graph.successors).groups_early

section Counting

variable {graph} (counts : Fin graph.size → Bool)
  (h : ∀ u v, v ∈ graph.successors u → counts v = true → counts u = true ∧ v ≤ u)

include h

/-- What a node that counts is reached from has no lesser number. -/
theorem le_of_reaches {u v : Fin graph.size} (hreach : Reaches graph.successors u v)
    (hv : counts v = true) : counts u = true ∧ v ≤ u := by
  induction hreach using Relation.ReflTransGen.head_induction_on with
  | refl => exact ⟨hv, le_rfl⟩
  | head hedge _ ih =>
    obtain ⟨hcounts, hle⟩ := h _ _ hedge ih.1
    exact ⟨hcounts, ih.2.trans hle⟩

/-- Nodes that count do not share a group. -/
theorem eq_of_mutual {u v : Fin graph.size} (hmutual : Mutual graph.successors u v)
    (hu : counts u = true) (hv : counts v = true) : u = v :=
  le_antisymm (le_of_reaches counts h hmutual.2 hu).2 (le_of_reaches counts h hmutual.1 hv).2

/-- **Nodes that only later ones lead to come in the order of their numbers**: those that count, if
the edges to them start at nodes that count and have no lesser number. -/
theorem filter_flatten_components :
    graph.components.flatten.filter counts = (List.finRange graph.size).filter counts := by
  have hnodup : graph.components.flatten.Nodup :=
    List.nodup_iff_count_le_one.mpr fun u => (count_flatten_components graph u).le
  have hmem : ∀ u, u ∈ graph.components.flatten := fun u =>
    List.mem_flatten.mpr (mem_flatten_components graph u)
  have hperm : graph.components.flatten.Perm (List.finRange graph.size) :=
    (List.perm_ext_iff_of_nodup hnodup (List.nodup_finRange _)).mpr fun u =>
      iff_of_true (hmem u) (List.mem_finRange u)
  have hlt : (graph.components.flatten.filter counts).Pairwise (· < ·) := by
    rw [List.pairwise_filter, List.pairwise_flatten]
    constructor
    · -- two nodes of a group do not both count
      intro group hgroup
      refine List.Pairwise.imp_of_mem (fun {u v} hu hv hne hcu hcv => absurd ?_ hne)
        ((List.nodup_flatten.mp hnodup).1 group hgroup)
      exact eq_of_mutual counts h ((mem_group_iff_mutual graph hgroup hu).mp hv) hcu hcv
    · refine ((List.nodup_flatten.mp hnodup).2.and (pairwise_components_early graph)).imp ?_
      rintro earlier later ⟨hdisjoint, hearly⟩ v hv u hu hcv -
      refine lt_of_le_of_ne (le_of_not_gt fun hlt => ?_) fun heq => hdisjoint hv (heq ▸ hu)
      -- what is reached from a node with no greater number has no greater number itself
      obtain ⟨w, hwu, hreach⟩ := hearly v hv u hu hlt
      exact absurd hlt (not_lt.mpr ((le_of_reaches counts h hreach hcv).2.trans hwu))
  exact (hperm.filter counts).eq_of_pairwise (fun u v _ _ huv hvu => absurd hvu huv.asymm) hlt
    ((List.pairwise_lt_finRange _).filter _)

end Counting

end Groups

end Bindery.Graph
