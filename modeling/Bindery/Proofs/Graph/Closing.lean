import Bindery.Proofs.Graph.Walk
import Mathlib.Data.List.Perm.Basic

/-!
# Closing a group

When the walk goes back from a node whose low link is its own rank, the nodes from there
to the top of the stack become a group (`Bindery.Graph.Search.close`). They are the nodes
**above** that node: those on the stack that do not rank below it.

No edge leaves them but to closed nodes (`Bindery.Graph.Search.Sound.edge_above`), all
of them are reached from the node, and the low links lead back to it
(`Bindery.Graph.Search.Sound.reaches_of_above`). So they are a group of nodes that can
be reached from each other, and they are all of it
(`Bindery.Graph.Search.Sound.above_iff_mutual`). What is left of the stack and of the way
is what ranks below the node, and there the invariant goes on to hold
(`Bindery.Graph.Search.Sound.close`).
-/

namespace Bindery.Graph.Search

variable {n : ℕ} {successors : Fin n → List (Fin n)} {owed : Fin n → Fin n → Prop}
  {search : Search n} {node : Fin n}

/-! ### The nodes above -/

/-- A node is on the stack and ranks no lower than another. -/
def Above (search : Search n) (node v : Fin n) : Prop :=
  v ∈ search.stack ∧ search.rank node ≤ search.rank v

theorem Sound.reaches_closed (h : search.Sound successors owed) {v w : Fin n}
    (hv : v ∈ search.closed) (hreach : Reaches successors v w) : w ∈ search.closed := by
  induction hreach with
  | refl => exact hv
  | tail _ hedge ih => exact h.grouped.edge_closed _ ih _ hedge

section Close

variable {work : List (Frame n)} (hwork : search.work = ⟨node, []⟩ :: work)
  (h : search.Sound successors settled) (hroot : search.low node = search.rank node)

include hwork h

/-- The nodes of the way above the last one are that one. -/
theorem Sound.eq_of_mem_way_of_le {u : Fin n} (hu : u ∈ search.way)
    (hle : search.rank node ≤ search.rank u) : u = node :=
  h.stacked.rank_injOn (h.mem_stack_of_mem_way hu) (h.mem_stack_of_work_eq hwork)
    (le_antisymm (h.rank_le_of_way_eq (way_eq_cons_onto hwork) hu) hle)

include hroot

/-- At a node whose low link is its rank, the edges of what is above stay above or lead to
closed nodes. -/
theorem Sound.edge_above {v w : Fin n} (hv : search.Above node v) (hw : w ∈ successors v) :
    w ∈ search.closed ∨ search.Above node w := by
  rcases h.linked.edge v hv.1 w hw with hmem | hwaits | hmem | ⟨hmem, hnoted⟩
  · exact hmem.elim
  · -- an edge that waits starts at an earlier node of the way, which is not above
    obtain ⟨frame, hframe, rfl, -⟩ := waits_onto hwork hwaits
    have hlt := h.rank_lt_of_way_eq (way_eq_cons_onto hwork) (List.mem_map_of_mem hframe)
    exact absurd hv.2 (not_le.mpr hlt)
  · exact Or.inl hmem
  · -- only the node itself can have taken note, and its low link is its rank
    obtain ⟨p, hp, hle, -, hlow⟩ := hnoted node (way_eq_cons_onto hwork ▸ List.mem_cons_self) hv.2
    rw [h.eq_of_mem_way_of_le hwork hp hle, hroot] at hlow
    exact Or.inr ⟨hmem, hlow⟩

theorem Sound.reaches_above {v w : Fin n} (hv : search.Above node v)
    (hreach : Reaches successors v w) : w ∈ search.closed ∨ search.Above node w := by
  induction hreach with
  | refl => exact Or.inr hv
  | tail _ hedge ih =>
    rcases ih with hclosed | habove
    · exact Or.inl (h.grouped.edge_closed _ hclosed _ hedge)
    · exact h.edge_above hwork hroot habove hedge

/-- Whatever is above is reached back from: the low links lead down to the node, one lower
rank at a time. -/
theorem Sound.reaches_of_above {v : Fin n} (hv : search.Above node v) :
    Reaches successors v node := by
  -- by induction on the rank, as a low link off the way is less than it
  induction hrank : search.rank v using Nat.strong_induction_on generalizing v with
  | _ rank ih =>
    by_cases hvn : v = node
    · rw [hvn]
    · have hnot : v ∉ search.way := fun hmem =>
        hvn (h.eq_of_mem_way_of_le hwork hmem hv.2)
      obtain ⟨w, hw, hlink, hreach⟩ := h.linked.low_reached v hv.1
      have hlt : search.rank w < rank := by
        rw [hlink, ← hrank]
        exact h.linked.low_lt v hv.1 hnot
      rcases h.reaches_above hwork hroot hv hreach with hclosed | habove
      · exact absurd hclosed (h.stacked.notMem_closed hw)
      · exact hreach.trans (ih _ hlt habove rfl)

/-- **What is above a node whose low link is its rank** is all that can be reached from it and
leads back. -/
theorem Sound.above_iff_mutual {v w : Fin n} (hv : search.Above node v) :
    search.Above node w ↔ Mutual successors v w := by
  have hnode : node ∈ search.way := way_eq_cons_onto hwork ▸ List.mem_cons_self
  have hdown := h.reaches_of_above hwork hroot hv
  constructor
  · intro hw
    exact ⟨hdown.trans (h.led.above_reached node hnode w hw.1 hw.2),
      (h.reaches_of_above hwork hroot hw).trans (h.led.above_reached node hnode v hv.1 hv.2)⟩
  · intro hmutual
    rcases h.reaches_above hwork hroot hv hmutual.1 with hclosed | habove
    · have hback := h.reaches_closed hclosed hmutual.2
      exact absurd hback (h.stacked.notMem_closed hv.1)
    · exact habove

end Close

/-! ### The stack of a group that closes -/

theorem popThrough_append {members below : List (Fin n)} (h : node ∉ members) :
    popThrough node (members ++ node :: below) = (members ++ [node], below) := by
  induction members with
  | nil => simp [popThrough]
  | cons member members ih =>
    have hne : member ≠ node := fun heq => h (heq ▸ List.mem_cons_self)
    have hrest : node ∉ members := fun hmem => h (List.mem_cons_of_mem _ hmem)
    simp [popThrough, hne, ih hrest]

/-- What follows a node in part of a list stands after that node in the list. -/
theorem sublist_of_cons_sublist_append {way members below : List (Fin n)} (h : node ∉ members)
    (hsub : (node :: way).Sublist (members ++ node :: below)) : way.Sublist below := by
  induction members with
  | nil => exact List.cons_sublist_cons.mp hsub
  | cons member members ih =>
    have hne : node ≠ member := fun heq => h (heq ▸ List.mem_cons_self)
    exact ih (fun hmem => h (List.mem_cons_of_mem _ hmem)) (hsub.of_cons_of_ne hne)

/-- The flags of some nodes are taken down. -/
theorem get_foldl_set_false (members : List (Fin n)) (flags : Vector Bool n) (v : Fin n) :
    (members.foldl (fun flags member => flags.set member false member.isLt) flags).get v = true ↔
      v ∉ members ∧ flags.get v = true := by
  induction members generalizing flags with
  | nil => simp
  | cons member members ih =>
    rw [List.foldl_cons, ih, List.mem_cons, not_or]
    by_cases heq : v = member
    · subst heq
      simp [get_set_self]
    · simp [heq, get_set_of_ne heq]

section Segment

variable {members below : List (Fin n)} (hstack : search.stack = members ++ node :: below)

include hstack

theorem Stacked.notMem_of_stack_eq (h : search.Stacked) : node ∉ members ∧ node ∉ below := by
  have hnodup := (List.nodup_append.mp h.nodup).1
  rw [hstack, List.nodup_middle, List.nodup_cons] at hnodup
  simpa using hnodup.1

theorem Stacked.rank_lt_of_mem_below (h : search.Stacked) {v : Fin n} (hv : v ∈ below) :
    search.rank v < search.rank node := by
  have hsorted := h.stack_sorted
  rw [hstack, List.pairwise_append] at hsorted
  exact (List.pairwise_cons.mp hsorted.2.1).1 v hv

/-- The stack down to a node holds what is above it. -/
theorem Stacked.mem_group_iff (h : search.Stacked) {v : Fin n} :
    v ∈ node :: members.reverse ↔ search.Above node v := by
  have hsorted := h.stack_sorted
  rw [hstack, List.pairwise_append] at hsorted
  have hcases : v ∈ search.stack ↔ v ∈ members ∨ v = node ∨ v ∈ below := by simp [hstack]
  simp only [List.mem_cons, List.mem_reverse]
  constructor
  · rintro (rfl | hv)
    · exact ⟨hcases.mpr (Or.inr (Or.inl rfl)), le_rfl⟩
    · exact ⟨hcases.mpr (Or.inl hv), (hsorted.2.2 v hv node List.mem_cons_self).le⟩
  · rintro ⟨hv, hle⟩
    rcases hcases.mp hv with hv | hv | hv
    · exact Or.inr hv
    · exact Or.inl hv
    · exact absurd (h.rank_lt_of_mem_below hstack hv) (not_lt.mpr hle)

theorem close_eq (h : search.Stacked) : search.close node =
    { search with
      onStack := (members ++ [node]).foldl
        (fun onStack (member : Fin n) => onStack.set member false member.isLt) search.onStack
      stack := below
      components := search.components.push (node :: members.reverse) } := by
  simp [close, hstack, popThrough_append (h.notMem_of_stack_eq hstack).1]

theorem stack_close (h : search.Stacked) : (search.close node).stack = below := by
  rw [close_eq hstack h]

theorem components_close (h : search.Stacked) : (search.close node).components.toList =
    search.components.toList ++ [node :: members.reverse] := by
  rw [close_eq hstack h, Array.toList_push]

theorem closed_close (h : search.Stacked) :
    (search.close node).closed = search.closed ++ node :: members.reverse := by
  simp [closed, components_close hstack h]

/-- What is closed has left the stack, and the rest is as it was. -/
theorem perm_close (h : search.Stacked) :
    ((search.close node).stack ++ (search.close node).closed).Perm
      (search.stack ++ search.closed) := by
  rw [stack_close hstack h, closed_close hstack h, hstack, List.perm_iff_count]
  intro v
  simp only [List.count_append, List.count_cons, List.count_reverse]
  omega

protected theorem Stacked.close (h : search.Stacked) : (search.close node).Stacked where
  index_lt := h.index_lt
  entered_iff := by
    intro v
    have hmem := (perm_close hstack h).mem_iff (a := v)
    rw [List.mem_append, List.mem_append] at hmem
    rw [hmem]
    exact h.entered_iff v
  onStack_iff := by
    intro v
    have hdisjoint : v ∈ below → v ∉ members ++ [node] := by
      have hnodup := (List.nodup_append.mp h.nodup).1
      rw [hstack, List.append_cons] at hnodup
      exact fun hv hmem => (List.nodup_append.mp hnodup).2.2 v hmem v hv rfl
    have hold : search.isOnStack v = true ↔ v ∈ members ++ [node] ∨ v ∈ below := by
      rw [h.onStack_iff, hstack, List.append_cons, List.mem_append]
    rw [close_eq hstack h]
    rw [isOnStack, get_foldl_set_false]
    rw [isOnStack] at hold
    rw [hold]
    constructor
    · rintro ⟨hnot, hmem | hmem⟩
      · exact absurd hmem hnot
      · exact hmem
    · exact fun hmem => ⟨hdisjoint hmem, Or.inr hmem⟩
  nodup := (perm_close hstack h).nodup_iff.mpr h.nodup
  stack_sorted := by
    rw [stack_close hstack h]
    have hsorted := h.stack_sorted
    rw [hstack] at hsorted
    have hsub := (List.sublist_cons_self node below).trans (List.sublist_append_right members _)
    exact hsorted.sublist hsub

end Segment

section Close

variable {work : List (Frame n)} {members below : List (Fin n)}
  (hwork : search.work = ⟨node, []⟩ :: work) (hstack : search.stack = members ++ node :: below)
  (h : search.Sound successors settled) (hroot : search.low node = search.rank node)

include hwork hstack h

omit hwork in
/-- What is left on the stack ranks below the node that closes. -/
theorem Sound.mem_below_iff {v : Fin n} :
    v ∈ below ↔ v ∈ search.stack ∧ search.rank v < search.rank node := by
  constructor
  · intro hv
    exact ⟨by simp [hstack, hv], h.stacked.rank_lt_of_mem_below hstack hv⟩
  · rintro ⟨hv, hlt⟩
    have hnot : v ∉ node :: members.reverse := fun hmem =>
      absurd ((h.stacked.mem_group_iff hstack).mp hmem).2 (not_le.mpr hlt)
    simp only [List.mem_cons, List.mem_reverse, not_or] at hnot
    rw [hstack] at hv
    simpa [hnot.1, hnot.2] using hv

/-- The way below the node that closes is what is left of the way. -/
theorem Sound.mem_way_onto_iff {u : Fin n} :
    u ∈ (search.onto work).way ↔ u ∈ search.way ∧ search.rank u < search.rank node := by
  have hway := way_eq_cons_onto hwork
  constructor
  · intro hu
    exact ⟨hway ▸ List.mem_cons_of_mem _ hu, h.rank_lt_of_way_eq hway hu⟩
  · rintro ⟨hu, hlt⟩
    rw [hway] at hu
    rcases List.mem_cons.mp hu with rfl | hu
    · exact absurd hlt (lt_irrefl _)
    · exact hu

theorem Sound.led_close : ((search.onto work).close node).Led successors := by
  have hbelow : ((search.onto work).close node).stack = below :=
    stack_close hstack h.stacked.onto
  refine ⟨?_, ?_, ?_, ?_, ?_⟩
  · have hsub := h.led.way_sublist
    rw [way_eq_cons_onto hwork, hstack] at hsub
    rw [hbelow]
    exact sublist_of_cons_sublist_append (h.stacked.notMem_of_stack_eq hstack).1 hsub
  · have hchain := h.led.way_chain
    rw [way_eq_cons_onto hwork] at hchain
    exact hchain.tail
  · exact fun frame hframe => h.led.rest_subset frame (hwork ▸ List.mem_cons_of_mem _ hframe)
  · intro u hu v hv
    rw [hbelow] at hv
    exact h.led.above_reached u ((h.mem_way_onto_iff hwork hstack).mp hu).1 v
      ((h.mem_below_iff hstack).mp hv).1
  · intro v hv
    rw [hbelow, h.mem_below_iff hstack] at hv
    obtain ⟨u, hu, hle⟩ := h.led.way_below v hv.1
    exact ⟨u, (h.mem_way_onto_iff hwork hstack).mpr ⟨hu, hle.trans_lt hv.2⟩, hle⟩

theorem Sound.linked_close :
    ((search.onto work).close node).Linked successors settled := by
  have hbelow : ((search.onto work).close node).stack = below :=
    stack_close hstack h.stacked.onto
  have hclosed : ((search.onto work).close node).closed =
      search.closed ++ node :: members.reverse := closed_close hstack h.stacked.onto
  refine ⟨?_, ?_, ?_, ?_⟩ <;> intro v hv <;> rw [hbelow, h.mem_below_iff hstack] at hv
  · exact h.linked.low_le v hv.1
  · obtain ⟨w, hw, hlink, hreach⟩ := h.linked.low_reached v hv.1
    have hlt : search.rank w < search.rank node :=
      (hlink.trans_le (h.linked.low_le v hv.1)).trans_lt hv.2
    exact ⟨w, hbelow ▸ (h.mem_below_iff hstack).mpr ⟨hw, hlt⟩, hlink, hreach⟩
  · exact fun hnot => h.linked.low_lt v hv.1 fun hmem =>
      hnot ((h.mem_way_onto_iff hwork hstack).mpr ⟨hmem, hv.2⟩)
  · intro w hw
    rcases h.linked.edge v hv.1 w hw with hmem | hwaits | hmem | ⟨hmem, hnoted⟩
    · exact hmem.elim
    · exact Or.inr (Or.inl (waits_onto hwork hwaits))
    · exact Or.inr (Or.inr (Or.inl (hclosed ▸ List.mem_append_left _ hmem)))
    · by_cases hle : search.rank node ≤ search.rank w
      · -- the target closes with the group
        have hgroup := (h.stacked.mem_group_iff hstack).mpr ⟨hmem, hle⟩
        exact Or.inr (Or.inr (Or.inl (hclosed ▸ List.mem_append_right _ hgroup)))
      · refine Or.inr (Or.inr (Or.inr ⟨?_, fun u hu huv => ?_⟩))
        · exact hbelow ▸ (h.mem_below_iff hstack).mpr ⟨hmem, not_le.mp hle⟩
        · obtain ⟨p, hp, hup, hpv, hlow⟩ :=
            hnoted u ((h.mem_way_onto_iff hwork hstack).mp hu).1 huv
          exact ⟨p, (h.mem_way_onto_iff hwork hstack).mpr ⟨hp, hpv.trans_lt hv.2⟩, hup, hpv, hlow⟩

include hroot

theorem Sound.grouped_close : ((search.onto work).close node).Grouped successors := by
  have hclosed : ((search.onto work).close node).closed =
      search.closed ++ node :: members.reverse := closed_close hstack h.stacked.onto
  have hcomponents : ((search.onto work).close node).components.toList =
      search.components.toList ++ [node :: members.reverse] :=
    components_close hstack h.stacked.onto
  have hgroup : ∀ {v}, v ∈ node :: members.reverse ↔ search.Above node v :=
    h.stacked.mem_group_iff hstack
  refine ⟨?_, ?_, ?_, ?_⟩
  · intro v hv w hw
    rw [hclosed, List.mem_append] at hv ⊢
    rcases hv with hv | hv
    · exact Or.inl (h.grouped.edge_closed v hv w hw)
    · exact (h.edge_above hwork hroot (hgroup.mp hv) hw).imp_right hgroup.mpr
  · intro group hmem u hu v
    rw [hcomponents, List.mem_append, List.mem_singleton] at hmem
    rcases hmem with hmem | rfl
    · exact h.grouped.group_mutual group hmem u hu v
    · rw [hgroup]
      exact h.above_iff_mutual hwork hroot (hgroup.mp hu)
  · intro group hmem
    rw [hcomponents, List.mem_append, List.mem_singleton] at hmem
    rcases hmem with hmem | rfl
    · exact h.grouped.group_sorted group hmem
    · -- the group is the top of the stack turned over, so it runs by rank
      have hsorted := h.stacked.stack_sorted
      rw [hstack, List.append_cons] at hsorted
      have hrev := List.pairwise_reverse.mpr (List.pairwise_append.mp hsorted).1
      rw [List.reverse_append] at hrev
      exact ⟨List.cons_ne_nil _ _, hrev⟩
  · rw [hcomponents, List.pairwise_append]
    refine ⟨h.grouped.groups_ordered, List.pairwise_singleton _ _, ?_⟩
    intro group hmem last hlast u hu v hv hedge
    rw [List.mem_singleton] at hlast
    subst hlast
    -- an edge into the new group would start at a node that was closed before it
    have hu' : u ∈ search.closed := List.mem_flatten_of_mem hmem hu
    exact h.stacked.notMem_closed (hgroup.mp hv).1 (h.grouped.edge_closed u hu' v hedge)

/-- **Closing the group** of a node whose low link is its rank keeps the invariant. -/
theorem Sound.close : ((search.onto work).close node).Sound successors settled :=
  ⟨h.stacked.onto.close hstack, h.led_close hwork hstack, h.linked_close hwork hstack,
    h.grouped_close hwork hstack hroot⟩

end Close

end Bindery.Graph.Search
