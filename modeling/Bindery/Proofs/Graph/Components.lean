import Bindery.Proofs.Graph.Closing

/-!
# Groups of nodes that can be reached from each other

Each step of a walk enters a node, takes note of one, goes back or closes a group, so it
keeps the invariant (`Bindery.Graph.Search.Sound.step`), and so does a walk to its end.
At the end there is no way and hence no stack: each node that was entered is closed.

After the walks from all nodes the groups are all there is
(`Bindery.Graph.components_partition`). Each node is in one group, the nodes of a group
are those that can be reached from each other, and an edge never leads to a later group.
-/

namespace Bindery.Graph

variable {n : ℕ}

namespace Search

variable {successors : Fin n → List (Fin n)} {search : Search n} {node target : Fin n}

/-! ### The steps of a walk -/

theorem step_nil (hwork : search.work = []) : search.step successors = search := by
  rw [step, hwork]

theorem step_back {work : List (Frame n)} (hwork : search.work = ⟨node, []⟩ :: work) :
    search.step successors = (search.onto work).leave node := by
  rw [step, hwork]
  rfl

theorem step_edge {rest : List (Fin n)} {work : List (Frame n)}
    (hwork : search.work = ⟨node, target :: rest⟩ :: work) :
    search.step successors =
      match search.index? target with
      | none => (search.onto (⟨node, rest⟩ :: work)).enter successors target
      | some index =>
        if search.isOnStack target then (search.onto (⟨node, rest⟩ :: work)).lower node index
        else search.onto (⟨node, rest⟩ :: work) := by
  rw [step, hwork]
  rfl

theorem leave_nil (hwork : search.work = [])
    (hindex : search.index? node = some (search.low node)) :
    search.leave node = search.close node := by
  rw [leave, hwork]
  exact if_pos hindex

section Caller

variable {caller : Frame n} {work : List (Frame n)} (hwork : search.work = caller :: work)

include hwork

theorem leave_cons_of_eq (hindex : search.index? node =
    some ((search.lower caller.node (search.low node)).low node)) :
    search.leave node = (search.lower caller.node (search.low node)).close node := by
  rw [leave, hwork]
  exact if_pos hindex

theorem leave_cons_of_ne (hindex : search.index? node ≠
    some ((search.lower caller.node (search.low node)).low node)) :
    search.leave node = search.lower caller.node (search.low node) := by
  rw [leave, hwork]
  exact if_neg hindex

end Caller

namespace Sound

variable {work : List (Frame n)} (h : search.Sound successors settled)
  (hwork : search.work = ⟨node, []⟩ :: work)

include h hwork

/-- **Going back from the root of a group** closes the group. -/
theorem leave_of_eq (hroot : search.low node = search.rank node) :
    (search.onto work).leave node = (search.onto work).close node := by
  have hindex : search.index? node = some (search.low node) := by
    rw [hroot]
    exact h.stacked.index_eq (h.mem_stack_of_work_eq hwork)
  cases work with
  | nil => exact leave_nil rfl hindex
  | cons caller work =>
    have hway := way_eq_cons_onto hwork
    have hcaller : caller.node ∈ (search.onto (caller :: work)).way := List.mem_cons_self
    have hstack := h.mem_stack_of_mem_way (hway ▸ List.mem_cons_of_mem _ hcaller)
    -- the node before is low already, so it learns nothing
    have hlow : search.low caller.node ≤ search.low node :=
      calc search.low caller.node
        _ ≤ search.rank caller.node := h.linked.low_le _ hstack
        _ ≤ search.rank node := (h.rank_lt_of_way_eq hway hcaller).le
        _ = search.low node := hroot.symm
    have hself : (search.onto (caller :: work)).lower caller.node
        ((search.onto (caller :: work)).low node) = search.onto (caller :: work) :=
      lower_eq_self hlow
    rw [leave_cons_of_eq rfl (hself.symm ▸ hindex), hself]

/-- **Going back from any other node** tells its low link to the node before. -/
theorem leave_of_lt (hlow : search.low node < search.rank node) :
    ∃ caller way, (search.onto work).way = caller :: way ∧
      (search.onto work).leave node = (search.onto work).lower caller (search.low node) := by
  have hindex : search.index? node = some (search.rank node) :=
    h.stacked.index_eq (h.mem_stack_of_work_eq hwork)
  obtain ⟨u, hu, -⟩ := h.exists_way_lt hwork hlow
  cases work with
  | nil => exact absurd hu List.not_mem_nil
  | cons caller work =>
    refine ⟨caller.node, work.map Frame.node, rfl, ?_⟩
    refine leave_cons_of_ne rfl fun heq => ?_
    -- telling the node before can only lower a low link, so this one stays below the rank
    have hle : ((search.onto (caller :: work)).lower caller.node
        (search.low node)).low node ≤ search.low node := low_lower_le node
    have hrank := Option.some.inj (hindex.symm.trans heq)
    exact absurd (hrank.le.trans hle) (not_le.mpr hlow)

/-- **Going back from a node** keeps the invariant. -/
protected theorem leave : ((search.onto work).leave node).Sound successors settled := by
  rcases (h.linked.low_le node (h.mem_stack_of_work_eq hwork)).lt_or_eq with hlow | hroot
  · obtain ⟨caller, way, hway, hleave⟩ := h.leave_of_lt hwork hlow
    obtain ⟨w, hw, hrank, hreach⟩ := h.linked.low_reached node (h.mem_stack_of_work_eq hwork)
    have hcaller : caller ∈ (search.onto work).way := hway ▸ List.mem_cons_self
    have hlt := h.rank_lt_of_way_eq (way_eq_cons_onto hwork) hcaller
    have hmem : caller ∈ search.way := way_eq_cons_onto hwork ▸ List.mem_cons_of_mem _ hcaller
    have hto := h.led.above_reached caller hmem node (h.mem_stack_of_work_eq hwork) hlt.le
    rw [hleave]
    refine (h.goBack hwork hlow).lower hway ⟨w, hw, hrank, hto.trans hreach⟩ ?_
    rintro v w ⟨hstack, hle, hnote⟩
    exact ⟨hstack, hlt.le.trans hle, hnote⟩
  · rw [h.leave_of_eq hwork hroot]
    obtain ⟨members, below, hstack⟩ := List.append_of_mem (h.mem_stack_of_work_eq hwork)
    exact h.close hwork hstack hroot

end Sound

/-- **A step keeps the invariant.** -/
theorem Sound.step (h : search.Sound successors settled) :
    (search.step successors).Sound successors settled := by
  rcases hwork : search.work with _ | ⟨⟨node, _ | ⟨target, rest⟩⟩, work⟩
  · rw [step_nil hwork]
    exact h
  · rw [step_back hwork]
    exact h.leave hwork
  · have htaken := h.takeUp hwork
    rw [step_edge hwork]
    rcases hindex : search.index? target with _ | index
    · refine htaken.enter hindex ?_ ?_
      · rintro v hv
        have hnode : node = v := by simpa [way, onto] using hv
        subst hnode
        exact h.led.rest_subset _ (hwork ▸ List.mem_cons_self) List.mem_cons_self
      · rintro v w ⟨rfl, rfl⟩
        exact ⟨rfl, rfl⟩
    · by_cases honStack : search.isOnStack target = true
      · simp only [honStack, if_true]
        have hstack := (h.stacked.onStack_iff target).mp honStack
        have hrank : search.rank target = index := by rw [rank, hindex, Option.getD_some]
        have hedge : target ∈ successors node :=
          h.led.rest_subset _ (hwork ▸ List.mem_cons_self) List.mem_cons_self
        refine htaken.lower rfl ⟨target, hstack, hrank, .single hedge⟩ ?_
        rintro v w ⟨rfl, rfl⟩
        exact ⟨hstack, le_rfl, hrank.ge⟩
      · -- a node that was entered and is not on the stack is closed
        simp only [honStack]
        refine htaken.settle ?_
        rintro v hv w ⟨rfl, rfl⟩
        have hentered := (h.stacked.entered_iff w).mp (by simp [Entered, hindex])
        have hnot : w ∉ search.stack := fun hmem => honStack ((h.stacked.onStack_iff w).mpr hmem)
        exact Or.inr (Or.inl (hentered.resolve_left hnot))

theorem Entered.enter {v : Fin n} (hv : search.Entered v) :
    (search.enter successors target).Entered v := by
  by_cases heq : v = target
  · subst heq
    simp [Entered]
  · rwa [Entered, index?_enter_of_ne heq]

/-- A node that was entered stays so. -/
theorem Entered.step {v : Fin n} (hv : search.Entered v) : (search.step successors).Entered v := by
  rcases hwork : search.work with _ | ⟨⟨node, _ | ⟨target, rest⟩⟩, work⟩
  · rwa [step_nil hwork]
  · rw [step_back hwork, Entered, index?, leave_indices]
    exact hv
  · have hv' : (search.onto (⟨node, rest⟩ :: work)).Entered v := hv
    rw [step_edge hwork]
    split
    · exact hv'.enter
    · split <;> exact hv'

/-! ### Walks to their end -/

/-- **A walk to its end** keeps the invariant, leaves no way, and what was entered stays so. -/
theorem Sound.run (h : search.Sound successors settled) :
    (Search.run successors search).Sound successors settled ∧
      (Search.run successors search).work = [] ∧
      ∀ v, search.Entered v → (Search.run successors search).Entered v := by
  -- along the steps of the walk, each of which leaves less to do
  fun_induction Search.run successors search with
  | case1 search hwork => exact ⟨h, List.isEmpty_iff.mp hwork, fun _ hv => hv⟩
  | case2 search hwork ih =>
    obtain ⟨hsound, hend, hkept⟩ := ih h.step
    exact ⟨hsound, hend, fun v hv => hkept v hv.step⟩

theorem Sound.visit (h : search.Sound successors settled) (hwork : search.work = [])
    (root : Fin n) :
    (Search.visit successors search root).Sound successors settled ∧
      (Search.visit successors search root).work = [] ∧
      ∀ v, v = root ∨ search.Entered v → (Search.visit successors search root).Entered v := by
  rw [Search.visit]
  split
  · next index hindex =>
    refine ⟨h, hwork, ?_⟩
    rintro v (rfl | hv)
    · exact Option.ne_none_iff_exists'.mpr ⟨index, hindex⟩
    · exact hv
  · next hindex =>
    have hway : search.way = [] := by rw [way, hwork, List.map_nil]
    have hstart := h.enter hindex (by simp [hway]) fun _ _ hfalse => hfalse.elim
    obtain ⟨hsound, hend, hkept⟩ := hstart.run
    refine ⟨hsound, hend, ?_⟩
    rintro v (rfl | hv)
    · exact hkept v (by simp [Entered])
    · exact hkept v hv.enter

theorem Sound.foldl_visit (roots : List (Fin n)) (h : search.Sound successors settled)
    (hwork : search.work = []) :
    (roots.foldl (Search.visit successors) search).Sound successors settled ∧
      (roots.foldl (Search.visit successors) search).work = [] ∧
      ∀ v, v ∈ roots ∨ search.Entered v →
        (roots.foldl (Search.visit successors) search).Entered v := by
  induction roots generalizing search with
  | nil => exact ⟨h, hwork, fun v hv => hv.resolve_left List.not_mem_nil⟩
  | cons root roots ih =>
    obtain ⟨hsound, hend, hkept⟩ := h.visit hwork root
    obtain ⟨hsound', hend', hkept'⟩ := ih hsound hend
    refine ⟨hsound', hend', ?_⟩
    rintro v (hv | hv)
    · rcases List.mem_cons.mp hv with rfl | hv
      · exact hkept' v (Or.inr (hkept v (Or.inl rfl)))
      · exact hkept' v (Or.inl hv)
    · exact hkept' v (Or.inr (hkept v (Or.inr hv)))

/-- **After the walks from all nodes** the invariant holds, and each node is closed. -/
theorem sound_complete (successors : Fin n → List (Fin n)) :
    (complete successors).Sound successors settled ∧ ∀ v, v ∈ (complete successors).closed := by
  have hinitial : (initial n).Sound successors settled := sound_initial
  obtain ⟨hsound, hend, hentered⟩ := hinitial.foldl_visit (List.finRange n) rfl
  refine ⟨hsound, fun v => ?_⟩
  have hstack := hsound.stack_eq_nil (by rw [way, hend, List.map_nil])
  have hv := (hsound.stacked.entered_iff v).mp (hentered v (Or.inl (List.mem_finRange v)))
  rw [hstack] at hv
  exact hv.resolve_left List.not_mem_nil

end Search

/-! ### The groups of a graph -/

section Groups

variable {κ : Type} [Ord κ] (graph : Graph κ)

/-- Every node stands in one group, once. -/
theorem count_flatten_components (node : Fin graph.size) :
    graph.components.flatten.count node = 1 := by
  obtain ⟨hsound, hclosed⟩ := Search.sound_complete graph.successors
  exact List.count_eq_one_of_mem (List.nodup_append.mp hsound.stacked.nodup).2.1 (hclosed node)

theorem ne_nil_of_mem_components {group : List (Fin graph.size)} (h : group ∈ graph.components) :
    group ≠ [] :=
  ((Search.sound_complete graph.successors).1.grouped.group_sorted group h).1

/-- A group is all that can be reached from one of its nodes and leads back. -/
theorem mem_group_iff_mutual {group : List (Fin graph.size)} (h : group ∈ graph.components)
    {u v : Fin graph.size} (hu : u ∈ group) : v ∈ group ↔ Mutual graph.successors u v :=
  (Search.sound_complete graph.successors).1.grouped.group_mutual group h u hu v

/-- No edge leads from a group to a later one. -/
theorem pairwise_components : graph.components.Pairwise fun earlier later =>
    ∀ u ∈ earlier, ∀ v ∈ later, v ∉ graph.successors u :=
  (Search.sound_complete graph.successors).1.grouped.groups_ordered

theorem mem_flatten_components (node : Fin graph.size) :
    ∃ group ∈ graph.components, node ∈ group :=
  List.mem_flatten.mp ((Search.sound_complete graph.successors).2 node)

/-- **The groups are the strongly connected components**, in reverse topological order: each
node stands in one of them, once; two nodes stand in the same if and only if each can be
reached from the other; and the target of an edge stands in no later group than its
source. -/
theorem components_partition :
    (∀ group ∈ graph.components, group ≠ []) ∧
      (∀ node, graph.components.flatten.count node = 1) ∧
      (∀ u v, (∃ group ∈ graph.components, u ∈ group ∧ v ∈ group) ↔
        Reaches graph.successors u v ∧ Reaches graph.successors v u) ∧
      ∀ u v, v ∈ graph.successors u → ∀ i j (hi : i < graph.components.length)
        (hj : j < graph.components.length),
        u ∈ graph.components[i] → v ∈ graph.components[j] → j ≤ i := by
  refine ⟨fun _ hgroup => ne_nil_of_mem_components graph hgroup, count_flatten_components graph,
    fun u v => ⟨?_, fun hmutual => ?_⟩, fun u v hedge i j hi hj hu hv => ?_⟩
  · rintro ⟨group, hgroup, hu, hv⟩
    exact (mem_group_iff_mutual graph hgroup hu).mp hv
  · obtain ⟨group, hgroup, hu⟩ := mem_flatten_components graph u
    exact ⟨group, hgroup, hu, (mem_group_iff_mutual graph hgroup hu).mpr hmutual⟩
  · by_contra hlt
    have hordered := List.pairwise_iff_getElem.mp (pairwise_components graph) i j hi hj
      (not_le.mp hlt)
    exact hordered u hu v hv hedge

end Groups

section Lines

/-- Lines and sides refer to each other, sides refer to points, and points to other points. -/
private def lines : Graph String :=
  (((empty.addEdge "Line" "Side").addEdge "Side" "Line").addEdge "Side" "Point").addEdge
    "Point" "Point"

/-- Two nodes on a cycle are one group, which comes after the group of a node that they lead to. An
edge from this node to itself makes no difference. -/
theorem components_partition_lines :
    lines.edges = #[[1], [0, 2], [2]] ∧
      ∃ line side point, [line, side, point].map lines.key = ["Line", "Side", "Point"] ∧
        lines.components = [[point], [line, side]] ∧
        (Reaches lines.successors line side ∧ Reaches lines.successors side line) ∧
        ¬ (Reaches lines.successors side point ∧ Reaches lines.successors point side) := by
  obtain ⟨-, -, hmutual, -⟩ := components_partition lines
  have hgroups : lines.components = [[⟨2, by decide⟩], [⟨0, by decide⟩, ⟨1, by decide⟩]] := by
    decide +kernel
  refine ⟨by decide +kernel, _, _, _, by decide +kernel, hgroups, (hmutual _ _).mp ?_, ?_⟩
  · rw [hgroups]
    decide +kernel
  · rw [← hmutual, hgroups]
    decide +kernel

end Lines

end Bindery.Graph
