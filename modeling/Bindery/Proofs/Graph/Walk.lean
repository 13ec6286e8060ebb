import Bindery.Graph.Components
import Mathlib.Data.List.Chain
import Mathlib.Data.List.Nodup
import Mathlib.Logic.Relation

/-!
# What a walk keeps true

A walk in depth first order is taken step by step (`Bindery.Graph.Search.step`), and
the groups it finds are only right because of what holds after each of its steps. This
file says what that is.

A node that was entered is either on the stack or **closed**: it belongs to a group that
was found. The nodes of the frames are the **way**. A node on the stack has a **rank**,
the number that it got when it was entered, and the stack lists its nodes by rank.

* The nodes on the stack that rank no lower than a node of the way are reached from it,
  and each node on the stack ranks no lower than some node of the way.
* The low link of a node on the stack is the rank of a node on the stack that is reached
  from it. It is less than the node's own rank once the walk has left the node.
* An edge out of a node on the stack that the walk has looked at leads to a closed node,
  or it is **noted**: it leads to a node on the stack, and wherever the way ranks no
  higher than its source, some node of the way between the two has a low link that takes
  note of the target.
* The closed nodes come in groups of nodes that can be reached from each other, and no
  edge leads from a group to a later one or to a node that is not closed.

`Bindery.Graph.Search.Sound` is all of this together, and
`Bindery.Graph.Search.Sound.step` says that a step keeps it.
-/

namespace Bindery.Graph

variable {n : ℕ}

/-! ### Reaching one node from another -/

/-- A node is reached from another along edges, or is that node. -/
abbrev Reaches (successors : Fin n → List (Fin n)) : Fin n → Fin n → Prop :=
  Relation.ReflTransGen fun source target => target ∈ successors source

/-- Two nodes can be reached from each other. -/
def Mutual (successors : Fin n → List (Fin n)) (u v : Fin n) : Prop :=
  Reaches successors u v ∧ Reaches successors v u

namespace Search

/-! ### Reading a state -/

section Get

variable {α : Type} {xs : Vector α n} {i j : Fin n} {a : α}

theorem get_set_self : (xs.set i a i.isLt).get i = a := by
  change (xs.set i a i.isLt)[(i : ℕ)] = a
  exact Vector.getElem_set_self i.isLt

theorem get_set_of_ne (hne : j ≠ i) : (xs.set i a i.isLt).get j = xs.get j := by
  have hval : (i : ℕ) ≠ j := fun heq => hne (Fin.ext heq.symm)
  change (xs.set i a i.isLt)[(j : ℕ)] = xs[(j : ℕ)]
  exact Vector.getElem_set_ne i.isLt j.isLt hval

end Get

/-- The number that a node got when it was entered, if it was. -/
def index? (search : Search n) (node : Fin n) : Option ℕ := search.indices.get node

/-- The low link of a node. -/
def low (search : Search n) (node : Fin n) : ℕ := search.lowlinks.get node

/-- Whether a node is marked as one on the stack. -/
def isOnStack (search : Search n) (node : Fin n) : Bool := search.onStack.get node

/-- The number of a node on the stack. -/
def rank (search : Search n) (node : Fin n) : ℕ := (search.index? node).getD 0

/-- A node was entered. -/
def Entered (search : Search n) (node : Fin n) : Prop := search.index? node ≠ none

/-- The nodes that belong to a group. -/
def closed (search : Search n) : List (Fin n) := search.components.toList.flatten

/-- **The nodes of the way**, the latest first. -/
def way (search : Search n) : List (Fin n) := search.work.map Frame.node

/-- The same state with the walk on another way. -/
def onto (search : Search n) (work : List (Frame n)) : Search n := { search with work }

/-- An edge is still to be looked at. -/
def Waits (search : Search n) (source target : Fin n) : Prop :=
  ∃ frame ∈ search.work, frame.node = source ∧ target ∈ frame.rest

/-- **An edge is noted**: from every node of the way that ranks no higher than its source
the way leads up to one, still no higher, whose low link takes note of the target. -/
def Notes (search : Search n) (source target : Fin n) : Prop :=
  ∀ u ∈ search.way, search.rank u ≤ search.rank source →
    ∃ v ∈ search.way, search.rank u ≤ search.rank v ∧ search.rank v ≤ search.rank source ∧
      search.low v ≤ search.rank target

/-! ### The invariant -/

/-- **The stack holds the nodes that were entered and are not closed**, by rank. -/
structure Stacked (search : Search n) : Prop where
  index_lt : ∀ {v : Fin n} {i : ℕ}, search.index? v = some i → i < search.next
  entered_iff : ∀ v, search.Entered v ↔ v ∈ search.stack ∨ v ∈ search.closed
  onStack_iff : ∀ v, search.isOnStack v = true ↔ v ∈ search.stack
  nodup : (search.stack ++ search.closed).Nodup
  stack_sorted : search.stack.Pairwise fun later earlier =>
    search.rank earlier < search.rank later

/-- **The way is a path on the stack**, and what is on the stack is reached from it. -/
structure Led (successors : Fin n → List (Fin n)) (search : Search n) : Prop where
  way_sublist : search.way.Sublist search.stack
  way_chain : search.way.IsChain fun later earlier => later ∈ successors earlier
  rest_subset : ∀ frame ∈ search.work, frame.rest ⊆ successors frame.node
  above_reached : ∀ u ∈ search.way, ∀ v ∈ search.stack,
    search.rank u ≤ search.rank v → Reaches successors u v
  way_below : ∀ v ∈ search.stack, ∃ u ∈ search.way, search.rank u ≤ search.rank v

/-- **The low links tell what the edges lead to**. The edges that are `owed` are
excepted: the walk has taken them up, but has not dealt with them. -/
structure Linked (successors : Fin n → List (Fin n)) (owed : Fin n → Fin n → Prop)
    (search : Search n) : Prop where
  low_le : ∀ v ∈ search.stack, search.low v ≤ search.rank v
  low_reached : ∀ v ∈ search.stack, ∃ w ∈ search.stack,
    search.rank w = search.low v ∧ Reaches successors v w
  low_lt : ∀ v ∈ search.stack, v ∉ search.way → search.low v < search.rank v
  edge : ∀ v ∈ search.stack, ∀ w ∈ successors v, owed v w ∨ search.Waits v w ∨
    w ∈ search.closed ∨ w ∈ search.stack ∧ search.Notes v w

/-- **The closed nodes stand in their groups**, and the groups in the order of
dependency. -/
structure Grouped (successors : Fin n → List (Fin n)) (search : Search n) : Prop where
  edge_closed : ∀ v ∈ search.closed, ∀ w ∈ successors v, w ∈ search.closed
  group_mutual : ∀ group ∈ search.components.toList, ∀ u ∈ group, ∀ v,
    v ∈ group ↔ Mutual successors u v
  group_sorted : ∀ group ∈ search.components.toList,
    group ≠ [] ∧ group.Pairwise fun earlier later => search.rank earlier < search.rank later
  groups_ordered : search.components.toList.Pairwise fun earlier later =>
    ∀ u ∈ earlier, ∀ v ∈ later, v ∉ successors u

/-- **What holds between two steps of a walk**, where some edges may be owed. -/
structure Sound (successors : Fin n → List (Fin n)) (owed : Fin n → Fin n → Prop)
    (search : Search n) : Prop where
  stacked : search.Stacked
  led : search.Led successors
  linked : search.Linked successors owed
  grouped : search.Grouped successors

/-- The edges that are owed when none is. -/
abbrev settled : Fin n → Fin n → Prop := fun _ _ => False

variable {successors : Fin n → List (Fin n)} {owed : Fin n → Fin n → Prop} {search : Search n}
  {node target : Fin n}

theorem index?_initial (v : Fin n) : (initial n).index? v = none := by
  change (Vector.replicate n none)[(v : ℕ)] = none
  exact Vector.getElem_replicate v.isLt

theorem isOnStack_initial (v : Fin n) : (initial n).isOnStack v = false := by
  change (Vector.replicate n false)[(v : ℕ)] = false
  exact Vector.getElem_replicate v.isLt

/-- Before any walk, nothing can be wrong. -/
theorem sound_initial : (initial n).Sound successors settled where
  stacked :=
    { index_lt := fun {v} i h => by simp [index?_initial] at h
      entered_iff := fun v =>
        iff_of_false (not_not.mpr (index?_initial v)) (by simp [initial, closed])
      onStack_iff := fun v => iff_of_false (by simp [isOnStack_initial]) (by simp [initial])
      nodup := by simp [initial, closed]
      stack_sorted := List.Pairwise.nil }
  led := ⟨List.Sublist.slnil, List.IsChain.nil, nofun, nofun, nofun⟩
  linked := ⟨nofun, nofun, nofun, nofun⟩
  grouped :=
    { edge_closed := fun v h => by simp [initial, closed] at h
      group_mutual := fun group h => by simp [initial] at h
      group_sorted := fun group h => by simp [initial] at h
      groups_ordered := by simp [initial] }

/-! ### What the invariant says of ranks -/

namespace Stacked

theorem index_eq (h : search.Stacked) {v : Fin n} (hv : v ∈ search.stack) :
    search.index? v = some (search.rank v) := by
  have hentered := (h.entered_iff v).mpr (Or.inl hv)
  obtain ⟨i, hi⟩ := Option.ne_none_iff_exists'.mp hentered
  rw [rank, hi, Option.getD_some]

theorem rank_lt_next (h : search.Stacked) {v : Fin n} (hv : v ∈ search.stack) :
    search.rank v < search.next :=
  h.index_lt (h.index_eq hv)

theorem notMem_closed (h : search.Stacked) {v : Fin n} (hv : v ∈ search.stack) :
    v ∉ search.closed := fun hclosed =>
  (List.nodup_append.mp h.nodup).2.2 v hv v hclosed rfl

/-- Nodes on the stack have ranks of their own. -/
theorem rank_injOn (h : search.Stacked) {u v : Fin n} (hu : u ∈ search.stack)
    (hv : v ∈ search.stack) (heq : search.rank u = search.rank v) : u = v := by
  have hnodup : (search.stack.map search.rank).Nodup :=
    List.pairwise_map.mpr (h.stack_sorted.imp fun hlt => hlt.ne')
  exact List.inj_on_of_nodup_map hnodup hu hv heq

end Stacked

namespace Sound

theorem mem_stack_of_mem_way (h : search.Sound successors owed) {v : Fin n}
    (hv : v ∈ search.way) : v ∈ search.stack :=
  h.led.way_sublist.subset hv

/-- The node where the walk is ranks above the others of the way. -/
theorem rank_lt_of_way_eq (h : search.Sound successors owed) {u : Fin n} {way : List (Fin n)}
    (hway : search.way = node :: way) (hu : u ∈ way) : search.rank u < search.rank node := by
  have hsorted := h.stacked.stack_sorted.sublist h.led.way_sublist
  rw [hway] at hsorted
  exact (List.pairwise_cons.mp hsorted).1 u hu

theorem rank_le_of_way_eq (h : search.Sound successors owed) {u : Fin n} {way : List (Fin n)}
    (hway : search.way = node :: way) (hu : u ∈ search.way) :
    search.rank u ≤ search.rank node := by
  rw [hway] at hu
  rcases List.mem_cons.mp hu with rfl | hu
  · exact le_rfl
  · exact (h.rank_lt_of_way_eq hway hu).le

/-- Where there is no way, there is no stack. -/
theorem stack_eq_nil (h : search.Sound successors owed) (hway : search.way = []) :
    search.stack = [] := by
  refine List.eq_nil_iff_forall_not_mem.mpr fun v hv => ?_
  obtain ⟨u, hu, -⟩ := h.led.way_below v hv
  rw [hway] at hu
  exact absurd hu List.not_mem_nil

/-- What is owed is dealt with once it waits, is closed or is noted. -/
theorem settle (h : search.Sound successors owed)
    (howed : ∀ v ∈ search.stack, ∀ w, owed v w → search.Waits v w ∨
      w ∈ search.closed ∨ w ∈ search.stack ∧ search.Notes v w) :
    search.Sound successors settled where
  stacked := h.stacked
  led := h.led
  linked :=
    { low_le := h.linked.low_le
      low_reached := h.linked.low_reached
      low_lt := h.linked.low_lt
      edge := fun v hv w hw => Or.inr ((h.linked.edge v hv w hw).elim (howed v hv w) id) }
  grouped := h.grouped

end Sound

/-! ### Entering a node -/

@[simp] theorem index?_enter_self :
    (search.enter successors target).index? target = some search.next :=
  get_set_self

theorem index?_enter_of_ne {v : Fin n} (hne : v ≠ target) :
    (search.enter successors target).index? v = search.index? v :=
  get_set_of_ne hne

@[simp] theorem isOnStack_enter_self :
    (search.enter successors target).isOnStack target = true :=
  get_set_self

theorem isOnStack_enter_of_ne {v : Fin n} (hne : v ≠ target) :
    (search.enter successors target).isOnStack v = search.isOnStack v :=
  get_set_of_ne hne

@[simp] theorem low_enter_self :
    (search.enter successors target).low target = search.next :=
  get_set_self

theorem low_enter_of_ne {v : Fin n} (hne : v ≠ target) :
    (search.enter successors target).low v = search.low v :=
  get_set_of_ne hne

@[simp] theorem rank_enter_self :
    (search.enter successors target).rank target = search.next := by
  rw [rank, index?_enter_self, Option.getD_some]

theorem rank_enter_of_ne {v : Fin n} (hne : v ≠ target) :
    (search.enter successors target).rank v = search.rank v := by
  rw [rank, index?_enter_of_ne hne, rank]

theorem stack_enter : (search.enter successors target).stack = target :: search.stack := rfl

theorem closed_enter : (search.enter successors target).closed = search.closed := rfl

theorem way_enter : (search.enter successors target).way = target :: search.way := rfl

theorem waits_enter {v w : Fin n} (h : search.Waits v w) :
    (search.enter successors target).Waits v w := by
  obtain ⟨frame, hframe, hnode, hrest⟩ := h
  exact ⟨frame, List.mem_cons_of_mem _ hframe, hnode, hrest⟩

namespace Stacked

theorem notMem_of_index_eq_none (h : search.Stacked) (hnew : search.index? target = none) :
    target ∉ search.stack ∧ target ∉ search.closed :=
  ⟨fun hmem => (h.entered_iff target).mpr (Or.inl hmem) hnew,
    fun hmem => (h.entered_iff target).mpr (Or.inr hmem) hnew⟩

theorem rank_enter (h : search.Stacked) (hnew : search.index? target = none) {v : Fin n}
    (hv : v ∈ search.stack) : (search.enter successors target).rank v = search.rank v :=
  rank_enter_of_ne fun heq => (h.notMem_of_index_eq_none hnew).1 (heq ▸ hv)

theorem low_enter (h : search.Stacked) (hnew : search.index? target = none) {v : Fin n}
    (hv : v ∈ search.stack) :
    (search.enter successors target).low v = search.low v :=
  low_enter_of_ne fun heq => (h.notMem_of_index_eq_none hnew).1 (heq ▸ hv)

protected theorem enter (h : search.Stacked) (hnew : search.index? target = none) :
    (search.enter successors target).Stacked where
  index_lt := by
    intro v i hi
    by_cases hv : v = target
    · subst hv
      rw [index?_enter_self] at hi
      exact Option.some.inj hi ▸ Nat.lt_succ_self _
    · rw [index?_enter_of_ne hv] at hi
      exact Nat.lt_succ_of_lt (h.index_lt hi)
  entered_iff := by
    intro v
    by_cases hv : v = target
    · subst hv
      exact iff_of_true (by simp [Entered]) (Or.inl List.mem_cons_self)
    · rw [Entered, index?_enter_of_ne hv, stack_enter, List.mem_cons, or_iff_right hv]
      exact h.entered_iff v
  onStack_iff := by
    intro v
    by_cases hv : v = target
    · subst hv
      exact iff_of_true isOnStack_enter_self List.mem_cons_self
    · rw [isOnStack_enter_of_ne hv, stack_enter, List.mem_cons, or_iff_right hv]
      exact h.onStack_iff v
  nodup := by
    obtain ⟨hstack, hclosed⟩ := h.notMem_of_index_eq_none hnew
    exact List.nodup_cons.mpr ⟨by simp [hstack, hclosed, closed_enter], h.nodup⟩
  stack_sorted := by
    refine List.pairwise_cons.mpr ⟨fun v hv => ?_, ?_⟩
    · rw [rank_enter_self, h.rank_enter hnew hv]
      exact h.rank_lt_next hv
    · refine h.stack_sorted.imp_of_mem fun hu hv hlt => ?_
      rwa [h.rank_enter hnew hu, h.rank_enter hnew hv]

end Stacked

namespace Sound

variable (h : search.Sound successors owed) (hnew : search.index? target = none)

include h hnew

theorem led_enter (hhead : ∀ v ∈ search.way.head?, target ∈ successors v) :
    (search.enter successors target).Led successors where
  way_sublist := h.led.way_sublist.cons_cons target
  way_chain := by
    rw [way_enter]
    exact List.isChain_cons.mpr ⟨hhead, h.led.way_chain⟩
  rest_subset := by
    intro frame hframe
    rcases List.mem_cons.mp hframe with rfl | hframe
    · exact List.Subset.refl _
    · exact h.led.rest_subset frame hframe
  above_reached := by
    intro u hu v hv hle
    rcases List.mem_cons.mp hu with rfl | hu' <;> rcases List.mem_cons.mp hv with rfl | hv'
    · exact .refl
    · -- the new node ranks above all of the stack
      rw [rank_enter_self, h.stacked.rank_enter hnew hv'] at hle
      exact absurd (h.stacked.rank_lt_next hv') (not_lt.mpr hle)
    · -- the way leads to its latest node, and from there to the new one
      obtain ⟨p, way, hp⟩ : ∃ p way, search.way = p :: way :=
        List.exists_cons_of_ne_nil (List.ne_nil_of_mem hu')
      have hpway : p ∈ search.way := hp ▸ List.mem_cons_self
      have hup := h.led.above_reached u hu' p (h.mem_stack_of_mem_way hpway)
        (h.rank_le_of_way_eq hp hu')
      exact hup.tail (hhead p (by rw [hp]; rfl))
    · rw [h.stacked.rank_enter hnew (h.mem_stack_of_mem_way hu'),
        h.stacked.rank_enter hnew hv'] at hle
      exact h.led.above_reached u hu' v hv' hle
  way_below := by
    intro v hv
    rcases List.mem_cons.mp hv with rfl | hv
    · exact ⟨v, List.mem_cons_self, le_rfl⟩
    · obtain ⟨u, hu, hle⟩ := h.led.way_below v hv
      refine ⟨u, List.mem_cons_of_mem _ hu, ?_⟩
      rwa [h.stacked.rank_enter hnew (h.mem_stack_of_mem_way hu), h.stacked.rank_enter hnew hv]

/-- What was noted stays noted, as the new node ranks above everything on the stack. -/
theorem notes_enter {v w : Fin n} (hv : v ∈ search.stack)
    (hnotes : ∀ u ∈ search.way, search.rank u ≤ search.rank v → ∃ p ∈ search.way,
      search.rank u ≤ search.rank p ∧ search.rank p ≤ search.rank v ∧
        search.low p ≤ (search.enter successors target).rank w) :
    (search.enter successors target).Notes v w := by
  intro u hu hle
  rw [h.stacked.rank_enter hnew hv] at hle
  rcases List.mem_cons.mp hu with rfl | hu
  · rw [rank_enter_self] at hle
    exact absurd (h.stacked.rank_lt_next hv) (not_lt.mpr hle)
  · have hustack := h.mem_stack_of_mem_way hu
    rw [h.stacked.rank_enter hnew hustack] at hle
    obtain ⟨p, hp, hup, hpv, hlow⟩ := hnotes u hu hle
    have hpstack := h.mem_stack_of_mem_way hp
    refine ⟨p, List.mem_cons_of_mem _ hp, ?_, ?_, ?_⟩
    · rwa [h.stacked.rank_enter hnew hustack, h.stacked.rank_enter hnew hpstack]
    · rwa [h.stacked.rank_enter hnew hpstack, h.stacked.rank_enter hnew hv]
    · rwa [h.stacked.low_enter hnew hpstack]

theorem linked_enter (howed : ∀ v w, owed v w → v ∈ search.way.head? ∧ w = target) :
    (search.enter successors target).Linked successors settled where
  low_le := by
    intro v hv
    rcases List.mem_cons.mp hv with rfl | hv
    · rw [low_enter_self, rank_enter_self]
    · rw [h.stacked.low_enter hnew hv, h.stacked.rank_enter hnew hv]
      exact h.linked.low_le v hv
  low_reached := by
    intro v hv
    rcases List.mem_cons.mp hv with rfl | hv
    · exact ⟨v, List.mem_cons_self, by rw [low_enter_self, rank_enter_self], .refl⟩
    · obtain ⟨w, hw, hlink, hreach⟩ := h.linked.low_reached v hv
      refine ⟨w, List.mem_cons_of_mem _ hw, ?_, hreach⟩
      rw [h.stacked.rank_enter hnew hw, h.stacked.low_enter hnew hv, hlink]
  low_lt := by
    intro v hv hnot
    rcases List.mem_cons.mp hv with rfl | hv
    · exact absurd List.mem_cons_self hnot
    · rw [h.stacked.low_enter hnew hv, h.stacked.rank_enter hnew hv]
      exact h.linked.low_lt v hv fun hmem => hnot (List.mem_cons_of_mem _ hmem)
  edge := by
    intro v hv w hw
    rcases List.mem_cons.mp hv with rfl | hv'
    · exact Or.inr (Or.inl ⟨⟨v, successors v⟩, List.mem_cons_self, rfl, hw⟩)
    · rcases h.linked.edge v hv' w hw with hmem | hwaits | hmem | ⟨hmem, hnoted⟩
      · -- the edge that led here: its source is on the way, with a low link below any new rank
        obtain ⟨hp, rfl⟩ := howed v w hmem
        refine Or.inr (Or.inr (Or.inr ⟨List.mem_cons_self, ?_⟩))
        refine h.notes_enter hnew hv' fun u hu hle => ?_
        refine ⟨v, List.mem_of_head? hp, hle, le_rfl, ?_⟩
        rw [rank_enter_self]
        exact (h.linked.low_le v hv').trans (h.stacked.rank_lt_next hv').le
      · exact Or.inr (Or.inl (waits_enter hwaits))
      · exact Or.inr (Or.inr (Or.inl hmem))
      · refine Or.inr (Or.inr (Or.inr ⟨List.mem_cons_of_mem _ hmem, ?_⟩))
        refine h.notes_enter hnew hv' ?_
        rwa [h.stacked.rank_enter hnew hmem]

theorem grouped_enter : (search.enter successors target).Grouped successors where
  edge_closed := h.grouped.edge_closed
  group_mutual := h.grouped.group_mutual
  group_sorted := by
    intro group hgroup
    obtain ⟨hne, hsorted⟩ := h.grouped.group_sorted group hgroup
    have hmem : ∀ v ∈ group, v ≠ target := fun v hv heq =>
      (h.stacked.notMem_of_index_eq_none hnew).2 (heq ▸ List.mem_flatten_of_mem hgroup hv)
    refine ⟨hne, hsorted.imp_of_mem fun hu hv hlt => ?_⟩
    rwa [rank_enter_of_ne (hmem _ hu), rank_enter_of_ne (hmem _ hv)]
  groups_ordered := h.grouped.groups_ordered

/-- **Entering a node** keeps the invariant, if it is a first node or the target of an edge
out of the node where the walk is. The one edge that may be owed is this one. -/
protected theorem enter (hhead : ∀ v ∈ search.way.head?, target ∈ successors v)
    (howed : ∀ v w, owed v w → v ∈ search.way.head? ∧ w = target) :
    (search.enter successors target).Sound successors settled :=
  ⟨h.stacked.enter hnew, h.led_enter hnew hhead, h.linked_enter hnew howed, h.grouped_enter hnew⟩

end Sound

/-! ### Taking note of a node that was entered before -/

theorem low_lower_self {bound : ℕ} :
    (search.lower node bound).low node = min (search.low node) bound :=
  get_set_self

theorem low_lower_of_ne {bound : ℕ} {v : Fin n} (hne : v ≠ node) :
    (search.lower node bound).low v = search.low v :=
  get_set_of_ne hne

theorem low_lower_le {bound : ℕ} (v : Fin n) :
    (search.lower node bound).low v ≤ search.low v := by
  by_cases hv : v = node
  · subst hv
    rw [low_lower_self]
    exact min_le_left _ _
  · rw [low_lower_of_ne hv]

/-- A low link that is low enough is left as it is. -/
theorem lower_eq_self {bound : ℕ} (h : search.low node ≤ bound) :
    search.lower node bound = search := by
  have hmin : min search.lowlinks[node] bound = search.lowlinks[node] := min_eq_left h
  rw [lower, hmin]
  exact congrArg (fun lowlinks => { search with lowlinks }) (Vector.set_getElem_self _)

/-- **Taking note** of a node on the stack, at the node where the walk is, keeps the
invariant. The edges that may be owed are those that this low link can take note of. -/
protected theorem Sound.lower {bound : ℕ} {way : List (Fin n)}
    (h : search.Sound successors owed) (hway : search.way = node :: way)
    (hbound : ∃ w ∈ search.stack, search.rank w = bound ∧ Reaches successors node w)
    (howed : ∀ v w, owed v w →
      w ∈ search.stack ∧ search.rank node ≤ search.rank v ∧ bound ≤ search.rank w) :
    (search.lower node bound).Sound successors settled where
  stacked := ⟨h.stacked.index_lt, h.stacked.entered_iff, h.stacked.onStack_iff,
    h.stacked.nodup, h.stacked.stack_sorted⟩
  led := ⟨h.led.way_sublist, h.led.way_chain, h.led.rest_subset, h.led.above_reached,
    h.led.way_below⟩
  linked :=
    { low_le := fun v hv => (low_lower_le v).trans (h.linked.low_le v hv)
      low_reached := by
        intro v hv
        by_cases hvn : v = node
        · subst hvn
          rw [low_lower_self]
          rcases le_total (search.low v) bound with hle | hle
          · rw [min_eq_left hle]
            exact h.linked.low_reached v hv
          · rw [min_eq_right hle]
            exact hbound
        · rw [low_lower_of_ne hvn]
          exact h.linked.low_reached v hv
      low_lt := fun v hv hnot => (low_lower_le v).trans_lt (h.linked.low_lt v hv hnot)
      edge := by
        intro v hv w hw
        rcases h.linked.edge v hv w hw with hmem | hwaits | hmem | ⟨hmem, hnoted⟩
        · -- the node where the walk is takes note, for every earlier one on the way
          obtain ⟨hstack, hle, hlow⟩ := howed v w hmem
          refine Or.inr (Or.inr (Or.inr ⟨hstack, fun u hu _ => ?_⟩))
          refine ⟨node, ?_, h.rank_le_of_way_eq hway hu, hle, ?_⟩
          · exact hway.symm ▸ List.mem_cons_self
          · rw [low_lower_self]
            exact (min_le_right _ _).trans hlow
        · exact Or.inr (Or.inl hwaits)
        · exact Or.inr (Or.inr (Or.inl hmem))
        · refine Or.inr (Or.inr (Or.inr ⟨hmem, fun u hu hle => ?_⟩))
          obtain ⟨p, hp, hup, hpv, hlow⟩ := hnoted u hu hle
          exact ⟨p, hp, hup, hpv, (low_lower_le p).trans hlow⟩ }
  grouped := ⟨h.grouped.edge_closed, h.grouped.group_mutual, h.grouped.group_sorted,
    h.grouped.groups_ordered⟩

/-! ### Taking up an edge, and going back -/

theorem Stacked.onto {work : List (Frame n)} (h : search.Stacked) :
    (search.onto work).Stacked :=
  ⟨h.index_lt, h.entered_iff, h.onStack_iff, h.nodup, h.stack_sorted⟩

theorem Grouped.onto {work : List (Frame n)} (h : search.Grouped successors) :
    (search.onto work).Grouped successors :=
  ⟨h.edge_closed, h.group_mutual, h.group_sorted, h.groups_ordered⟩

namespace Sound

variable {rest : List (Fin n)} {work : List (Frame n)}

/-- **Taking up an edge** at the node where the walk is: from then on it is owed. -/
theorem takeUp (h : search.Sound successors settled)
    (hwork : search.work = ⟨node, target :: rest⟩ :: work) :
    (search.onto (⟨node, rest⟩ :: work)).Sound successors fun v w => v = node ∧ w = target := by
  have hway : (search.onto (⟨node, rest⟩ :: work)).way = search.way := by
    simp [way, onto, hwork]
  have hframes : ∀ {frame}, frame ∈ work → frame ∈ search.work := fun hframe =>
    hwork.symm ▸ List.mem_cons_of_mem _ hframe
  have hfirst : ⟨node, target :: rest⟩ ∈ search.work := hwork.symm ▸ List.mem_cons_self
  refine ⟨h.stacked.onto, ⟨?_, ?_, ?_, ?_, ?_⟩, ⟨h.linked.low_le, h.linked.low_reached, ?_, ?_⟩,
    h.grouped.onto⟩
  · rw [hway]
    exact h.led.way_sublist
  · rw [hway]
    exact h.led.way_chain
  · intro frame hframe
    rcases List.mem_cons.mp hframe with rfl | hframe
    · exact fun v hv => h.led.rest_subset _ hfirst (List.mem_cons_of_mem _ hv)
    · exact h.led.rest_subset frame (hframes hframe)
  · rw [hway]
    exact h.led.above_reached
  · rw [hway]
    exact h.led.way_below
  · rw [hway]
    exact h.linked.low_lt
  · intro v hv w hw
    rcases h.linked.edge v hv w hw with hmem | ⟨frame, hframe, rfl, hmem⟩ | hmem | ⟨hmem, hnoted⟩
    · exact hmem.elim
    · rw [hwork] at hframe
      rcases List.mem_cons.mp hframe with rfl | hframe
      · rcases List.mem_cons.mp hmem with rfl | hmem
        · exact Or.inl ⟨rfl, rfl⟩
        · exact Or.inr (Or.inl ⟨_, List.mem_cons_self, rfl, hmem⟩)
      · exact Or.inr (Or.inl ⟨frame, List.mem_cons_of_mem _ hframe, rfl, hmem⟩)
    · exact Or.inr (Or.inr (Or.inl hmem))
    · refine Or.inr (Or.inr (Or.inr ⟨hmem, ?_⟩))
      rw [Notes, hway]
      exact hnoted

end Sound

section Back

variable {work : List (Frame n)} (hwork : search.work = ⟨node, []⟩ :: work)

include hwork

theorem way_eq_cons_onto : search.way = node :: (search.onto work).way := by
  simp [way, onto, hwork]

/-- No edge waits at a frame with nothing left. -/
theorem waits_onto {v w : Fin n} (hwaits : search.Waits v w) : (search.onto work).Waits v w := by
  obtain ⟨frame, hframe, rfl, hmem⟩ := hwaits
  rw [hwork] at hframe
  rcases List.mem_cons.mp hframe with rfl | hframe
  · exact absurd hmem List.not_mem_nil
  · exact ⟨frame, hframe, rfl, hmem⟩

namespace Sound

variable (h : search.Sound successors settled)

include h

theorem mem_stack_of_work_eq : node ∈ search.stack :=
  h.mem_stack_of_mem_way (way_eq_cons_onto hwork ▸ List.mem_cons_self)

/-- A low link that is less than the rank is the rank of a node below, which some earlier
node of the way is below of. -/
theorem exists_way_lt (hlow : search.low node < search.rank node) :
    ∃ u ∈ (search.onto work).way, search.rank u ≤ search.low node := by
  obtain ⟨w, hw, hrank, -⟩ := h.linked.low_reached node (h.mem_stack_of_work_eq hwork)
  obtain ⟨u, hu, hle⟩ := h.led.way_below w hw
  rw [way_eq_cons_onto hwork] at hu
  rcases List.mem_cons.mp hu with rfl | hu
  · exact absurd (hle.trans_eq hrank) (not_le.mpr hlow)
  · exact ⟨u, hu, hle.trans_eq hrank⟩

/-- **Going back from a node** whose low link is less than its rank. What its own low link
took note of is owed by the node before it on the way. -/
theorem goBack (hlow : search.low node < search.rank node) :
    (search.onto work).Sound successors fun v w => w ∈ search.stack ∧
      search.rank node ≤ search.rank v ∧ search.low node ≤ search.rank w := by
  have hway := way_eq_cons_onto hwork
  have hmono : ∀ {u}, u ∈ (search.onto work).way → u ∈ search.way := fun hu =>
    hway ▸ List.mem_cons_of_mem _ hu
  have hsub := h.led.way_sublist
  have hchain := h.led.way_chain
  rw [hway] at hsub hchain
  refine ⟨h.stacked.onto, ⟨List.sublist_of_cons_sublist hsub, hchain.tail, ?_, ?_, ?_⟩,
    ⟨h.linked.low_le, h.linked.low_reached, ?_, ?_⟩, h.grouped.onto⟩
  · exact fun frame hframe => h.led.rest_subset frame (hwork ▸ List.mem_cons_of_mem _ hframe)
  · exact fun u hu => h.led.above_reached u (hmono hu)
  · intro v hv
    obtain ⟨u, hu, hle⟩ := h.led.way_below v hv
    rw [hway] at hu
    rcases List.mem_cons.mp hu with heq | hu
    · -- the node that leaves the way is stood in for by the one that its low link shows
      obtain ⟨u', hu', hle'⟩ := h.exists_way_lt hwork hlow
      exact ⟨u', hu', (hle'.trans hlow.le).trans (heq ▸ hle)⟩
    · exact ⟨u, hu, hle⟩
  · intro v hv hnot
    by_cases hvn : v = node
    · rw [hvn]
      exact hlow
    · refine h.linked.low_lt v hv fun hmem => ?_
      rw [hway] at hmem
      exact (List.mem_cons.mp hmem).elim hvn hnot
  · intro v hv w hw
    rcases h.linked.edge v hv w hw with hmem | hwaits | hmem | ⟨hmem, hnoted⟩
    · exact hmem.elim
    · exact Or.inr (Or.inl (waits_onto hwork hwaits))
    · exact Or.inr (Or.inr (Or.inl hmem))
    · -- what the node itself took note of is passed on; the rest was noted by an earlier one
      by_cases howed : search.rank node ≤ search.rank v ∧ search.low node ≤ search.rank w
      · exact Or.inl ⟨hmem, howed⟩
      · refine Or.inr (Or.inr (Or.inr ⟨hmem, fun u hu hle => ?_⟩))
        obtain ⟨p, hp, hup, hpv, hplow⟩ := hnoted u (hmono hu) hle
        rw [hway] at hp
        rcases List.mem_cons.mp hp with rfl | hp
        · exact absurd ⟨hpv, hplow⟩ howed
        · exact ⟨p, hp, hup, hpv, hplow⟩

end Sound

end Back

end Search

end Bindery.Graph
