import Bindery.Proofs.Graph.Checked
import Bindery.Proofs.Graph.Roots

/-!
# One walk, turn by turn

The walks from several nodes are taken one after the other, and the next one starts at a node that
none of them has entered. This file says what can be seen of that walk at each of its **turns**
(`Bindery.Graph.Search.turn`), and what it leaves behind.

At each turn (`Bindery.Graph.Search.Traversing`) the way is a path of edges from the root, all on
the stack; the stack lists the nodes that were entered and are in no group yet in the order in which
they were entered, and these are the nodes that are flagged. The order is that of the numbers
(`Bindery.Graph.Search.Before`): a node that is entered at a later turn gets a greater number
(`Bindery.Graph.Search.before_of_entered`).

The walk comes to its end within as many turns as its potential says
(`Bindery.Graph.Search.exists_run_eq`). Then the stack is empty, and whatever is reached from the
root is in a group, once (`Bindery.Graph.Search.Traversed`). `Bindery.Graph.visit_traverses` has it
all together, with the fact that each place in an array that the walk looks at is there.
-/

namespace Bindery.Graph

namespace Search

variable {n : ℕ}

/-! ### The walk from one more node -/

/-- The state after the walks from these nodes. -/
def after (successors : Fin n → List (Fin n)) (roots : List (Fin n)) : Search n :=
  roots.foldl (visit successors) (initial n)

/-- **The state at a turn of the walk** from one more node. -/
def turn (successors : Fin n → List (Fin n)) (search : Search n) (root : Fin n) (turns : ℕ) :
    Search n :=
  (step successors)^[turns] (search.enter successors root)

/-- **A node was entered before another one**: it has the lesser number. -/
def Before (search : Search n) (u v : Fin n) : Prop :=
  ∃ i j, search.index? u = some i ∧ search.index? v = some j ∧ i < j

/-- **What holds at each turn of the walk from a root.** -/
structure Traversing (successors : Fin n → List (Fin n)) (root : Fin n) (search : Search n) :
    Prop where
  way_chain : search.way.reverse.IsChain fun earlier later => later ∈ successors earlier
  way_root : ∀ v ∈ search.way.reverse.head?, v = root
  way_subset : search.way ⊆ search.stack
  mem_stack_iff : ∀ v, v ∈ search.stack ↔ search.Entered v ∧ v ∉ search.closed
  stack_sorted : search.stack.reverse.Pairwise search.Before
  onStack_iff : ∀ v, search.isOnStack v = true ↔ v ∈ search.stack

/-- **What holds at the end of the walk from a root.** -/
structure Traversed (successors : Fin n → List (Fin n)) (root : Fin n) (search : Search n) :
    Prop where
  stack_eq_nil : search.stack = []
  count_eq_one : ∀ v, Reaches successors root v → search.components.toList.flatten.count v = 1
  group_sorted : ∀ group ∈ search.components.toList,
    ∃ first rest, group = first :: rest ∧ (first :: rest).Pairwise search.Before

variable {successors : Fin n → List (Fin n)} {search : Search n} {root node : Fin n}

/-! ### The order in which nodes are entered -/

/-- A number, once given, stays. -/
theorem index?_step {v : Fin n} {i : ℕ} (h : search.index? v = some i) :
    (search.step successors).index? v = some i := by
  rcases hwork : search.work with _ | ⟨⟨node, _ | ⟨target, rest⟩⟩, work⟩
  · rwa [step_nil hwork]
  · rw [step_back hwork, index?, leave_indices]
    exact h
  · rw [step_edge hwork]
    split
    · next hnew =>
      have hne : v ≠ target := fun heq => by simp [← heq, h] at hnew
      rw [index?_enter_of_ne hne]
      exact h
    · split <;> exact h

/-- A step gives out no number but the next one, and the next one does not go back. -/
theorem next_le_of_step : search.next ≤ (search.step successors).next ∧
    ∀ v j, (search.step successors).index? v = some j →
      search.index? v = some j ∨ search.next ≤ j := by
  rcases hwork : search.work with _ | ⟨⟨node, _ | ⟨target, rest⟩⟩, work⟩
  · rw [step_nil hwork]
    exact ⟨le_rfl, fun _ _ hj => Or.inl hj⟩
  · rw [step_back hwork]
    refine ⟨?_, fun v j hj => Or.inl ?_⟩
    · simp only [leave]
      split <;> split <;> exact le_rfl
    · rwa [index?, leave_indices] at hj
  · rw [step_edge hwork]
    split
    · refine ⟨Nat.le_succ _, fun v j hj => ?_⟩
      by_cases heq : v = target
      · subst heq
        rw [index?_enter_self] at hj
        exact Or.inr (Option.some.inj hj).le
      · rw [index?_enter_of_ne heq] at hj
        exact Or.inl hj
    · split <;> exact ⟨le_rfl, fun _ _ hj => Or.inl hj⟩

theorem index?_iterate {v : Fin n} {i : ℕ} (turns : ℕ) (h : search.index? v = some i) :
    ((step successors)^[turns] search).index? v = some i := by
  induction turns generalizing search with
  | zero => exact h
  | succ turns ih => exact ih (index?_step h)

theorem next_le_of_iterate {v : Fin n} {j : ℕ} (turns : ℕ)
    (h : ((step successors)^[turns] search).index? v = some j) :
    search.index? v = some j ∨ search.next ≤ j := by
  induction turns generalizing search with
  | zero => exact Or.inl h
  | succ turns ih =>
    rcases ih h with hj | hj
    · exact next_le_of_step.2 v j hj
    · exact Or.inr (next_le_of_step.1.trans hj)

/-- **What was entered comes before what is entered at a later turn.** -/
theorem before_of_entered (h : search.Stacked) {u v : Fin n} (hu : search.Entered u)
    (hv : ¬search.Entered v) {turns : ℕ} (hlater : ((step successors)^[turns] search).Entered v) :
    ((step successors)^[turns] search).Before u v := by
  obtain ⟨i, hi⟩ := Option.ne_none_iff_exists'.mp hu
  obtain ⟨j, hj⟩ := Option.ne_none_iff_exists'.mp hlater
  refine ⟨i, j, index?_iterate turns hi, hj, (h.index_lt hi).trans_le ?_⟩
  rcases next_le_of_iterate turns hj with hold | hle
  · exact absurd (by simp [Entered, hold]) hv
  · exact hle

theorem before_of_rank_lt {u v : Fin n} (hu : search.Entered u) (hv : search.Entered v)
    (hlt : search.rank u < search.rank v) : search.Before u v := by
  obtain ⟨i, hi⟩ := Option.ne_none_iff_exists'.mp hu
  obtain ⟨j, hj⟩ := Option.ne_none_iff_exists'.mp hv
  refine ⟨i, j, hi, hj, ?_⟩
  simpa [rank, hi, hj] using hlt

/-! ### The end of a walk -/

/-- **A walk ends** within as many turns as its potential says. -/
theorem exists_run_eq (successors : Fin n → List (Fin n)) (search : Search n) :
    ∃ turns ≤ search.potential successors,
      run successors search = (step successors)^[turns] search ∧
        ((step successors)^[turns] search).work = [] := by
  -- along the steps of the walk, each of which lowers the potential
  fun_induction run successors search with
  | case1 search hwork => exact ⟨0, Nat.zero_le _, rfl, List.isEmpty_iff.mp hwork⟩
  | case2 search hwork ih =>
    obtain ⟨turns, hle, hrun, hend⟩ := ih
    have hlt : (search.step successors).potential successors < search.potential successors :=
      potential_step_lt successors fun hnil => hwork (List.isEmpty_iff.mpr hnil)
    exact ⟨turns + 1, hle.trans_lt hlt, hrun, hend⟩

theorem visit_of_new (hnew : search.index? root = none) :
    visit successors search root = run successors (search.enter successors root) := by
  have hindices : search.indices[root] = none := hnew
  rw [visit, hindices]

/-! ### What is seen at a turn -/

/-- The way begins at the root until the walk leaves that. -/
def BeginsAt (root : Fin n) (search : Search n) : Prop :=
  ∀ v ∈ search.way.getLast?, v = root

theorem BeginsAt.of_suffix {next : Search n} (h : search.BeginsAt root)
    (hway : next.way <:+ search.way) : next.BeginsAt root := by
  obtain ⟨later, heq⟩ := hway
  intro v hv
  refine h v ?_
  rw [← heq, List.getLast?_append, hv]
  rfl

theorem BeginsAt.step (h : search.BeginsAt root) : (search.step successors).BeginsAt root := by
  rcases hwork : search.work with _ | ⟨⟨node, _ | ⟨target, rest⟩⟩, work⟩
  · rwa [step_nil hwork]
  · refine h.of_suffix ?_
    rw [step_back hwork, way, leave_work, way, hwork]
    exact List.suffix_cons _ _
  · have hway : (search.onto (⟨node, rest⟩ :: work)).way = search.way := by
      simp [way, onto, hwork]
    have htaken : (search.onto (⟨node, rest⟩ :: work)).BeginsAt root := by
      rwa [BeginsAt, hway]
    rw [step_edge hwork]
    split
    · intro v hv
      rw [way_enter, hway, way, hwork] at hv
      exact h v (by rwa [way, hwork])
    · split <;> exact htaken

theorem BeginsAt.iterate (h : search.BeginsAt root) (turns : ℕ) :
    ((Search.step successors)^[turns] search).BeginsAt root := by
  induction turns generalizing search with
  | zero => exact h
  | succ turns ih => exact ih h.step

theorem Sound.iterate (h : search.Sound successors settled) (turns : ℕ) :
    ((Search.step successors)^[turns] search).Sound successors settled := by
  induction turns generalizing search with
  | zero => exact h
  | succ turns ih => exact ih h.step

theorem Sound.traversing (h : search.Sound successors settled) (hroot : search.BeginsAt root) :
    search.Traversing successors root where
  way_chain := List.isChain_reverse.mpr h.led.way_chain
  way_root := by
    rw [List.head?_reverse]
    exact hroot
  way_subset := h.led.way_sublist.subset
  mem_stack_iff := by
    intro v
    rw [h.stacked.entered_iff v]
    refine ⟨fun hv => ⟨Or.inl hv, h.stacked.notMem_closed hv⟩, ?_⟩
    rintro ⟨hv, hnot⟩
    exact hv.resolve_right hnot
  stack_sorted := by
    have hentered : ∀ v ∈ search.stack, search.Entered v := fun v hv =>
      (h.stacked.entered_iff v).mpr (Or.inl hv)
    refine List.pairwise_reverse.mpr (h.stacked.stack_sorted.imp_of_mem fun hu hv hlt => ?_)
    exact before_of_rank_lt (hentered _ hv) (hentered _ hu) hlt
  onStack_iff := h.stacked.onStack_iff

/-- What is reached from a closed node is closed, so whatever is reached from a root that was
entered is in a group once the stack is empty. -/
theorem Sound.traversed (h : search.Sound successors settled) (hwork : search.work = [])
    (hroot : search.Entered root) : search.Traversed successors root where
  stack_eq_nil := h.stack_eq_nil_of_work hwork
  count_eq_one := by
    intro v hreach
    have hclosed := h.reaches_closed (h.mem_closed_of_entered hwork hroot) hreach
    exact List.count_eq_one_of_mem (List.nodup_append.mp h.stacked.nodup).2.1 hclosed
  group_sorted := by
    intro group hgroup
    obtain ⟨hne, hsorted⟩ := h.grouped.group_sorted group hgroup
    obtain ⟨first, rest, rfl⟩ := List.exists_cons_of_ne_nil hne
    have hentered : ∀ v ∈ first :: rest, search.Entered v := fun v hv =>
      (h.stacked.entered_iff v).mpr (Or.inr (List.mem_flatten_of_mem hgroup hv))
    refine ⟨first, rest, rfl, hsorted.imp_of_mem fun hu hv hlt => ?_⟩
    exact before_of_rank_lt (hentered _ hu) (hentered _ hv) hlt

/-- Between two walks there is no way. -/
theorem sound_after (successors : Fin n → List (Fin n)) (roots : List (Fin n)) :
    (after successors roots).Sound successors settled ∧ (after successors roots).work = [] := by
  have hinitial : (initial n).Sound successors settled := sound_initial
  obtain ⟨hsound, hwork, -⟩ := hinitial.foldl_visit roots rfl
  exact ⟨hsound, hwork⟩

/-- A later turn is as many steps on. -/
theorem turn_of_le {earlier turns : ℕ} (hle : earlier ≤ turns) :
    turn successors search root turns =
      (step successors)^[turns - earlier] (turn successors search root earlier) := by
  rw [turn, turn, ← Function.iterate_add_apply, Nat.sub_add_cancel hle]

end Search

/-! ### The walk through a graph -/

open Search in
/-- **The walk from a node that no earlier one has entered**. At each turn it finds every place in
its arrays, the way and the stack are in order, and what was entered at an earlier turn has the
lesser number. It comes to its end, and then all that is reached from the node is in a group. -/
theorem visit_traverses {κ : Type} [Ord κ] (graph : Graph κ) (roots : List (Fin graph.size))
    (root : Fin graph.size) (hnew : (after graph.successors roots).index? root = none) :
    let before := after graph.successors roots
    let state := turn graph.successors before root
    (∀ turns, (before.bare graph.successors).visit? graph.edges root turns =
        some ((state turns).bare graph.successors) ∧
      (state turns).Traversing graph.successors root ∧
      ∀ earlier ≤ turns, ∀ u v, (state earlier).Entered u → ¬(state earlier).Entered v →
        (state turns).Entered v → (state turns).Before u v) ∧
    ∃ turns ≤ (before.enter graph.successors root).potential graph.successors,
      (state turns).work = [] ∧ visit graph.successors before root = state turns ∧
        (visit graph.successors before root).Traversed graph.successors root := by
  intro before state
  obtain ⟨hsound, hwork⟩ : before.Sound graph.successors settled ∧ before.work = [] :=
    sound_after graph.successors roots
  have hway : before.way = [] := by rw [way, hwork, List.map_nil]
  have hbegun : before.Begun graph.successors := fun frame hframe =>
    absurd (hwork ▸ hframe) List.not_mem_nil
  have hstart := hsound.enter hnew (by simp [hway]) fun _ _ hfalse => hfalse.elim
  have hroot : (before.enter graph.successors root).BeginsAt root := by
    simp [BeginsAt, way_enter, hway]
  refine ⟨fun turns => ⟨?_, ?_, ?_⟩, ?_⟩
  · exact visit?_bare graph.getElem?_edges hbegun root turns
  · exact (hstart.iterate turns).traversing (hroot.iterate turns)
  · intro earlier hle u v hu hv hlater
    have hon : state turns = (step graph.successors)^[turns - earlier] (state earlier) :=
      turn_of_le hle
    rw [hon] at hlater ⊢
    exact before_of_entered (hstart.iterate earlier).stacked hu hv hlater
  · obtain ⟨turns, hle, hrun, hend⟩ := exists_run_eq graph.successors
      (before.enter graph.successors root)
    obtain ⟨hvisited, hvisitedEnd, hentered⟩ := hsound.visit hwork root
    exact ⟨turns, hle, hend, (visit_of_new hnew).trans hrun,
      hvisited.traversed hvisitedEnd (hentered root (Or.inl rfl))⟩

/-- Two nodes in a circle, after one that stands alone. -/
def circle : Graph ℕ := ((empty.addNode 1).addEdge 2 3).addEdge 3 2

open Search in
/-- The walk from the node alone does not enter the circle, so the next one starts there. -/
theorem visit_traverses_circle :
    let alone : Fin circle.size := ⟨0, by decide +kernel⟩
    let root : Fin circle.size := ⟨1, by decide +kernel⟩
    (after circle.successors [alone]).index? root = none ∧
      (visit circle.successors (after circle.successors [alone]) root).Traversed
        circle.successors root := by
  intro alone root
  have hnew : (after circle.successors [alone]).index? root = none := by decide +kernel
  obtain ⟨-, -, -, -, -, htraversed⟩ := visit_traverses circle [alone] root hnew
  exact ⟨hnew, htraversed⟩

end Bindery.Graph
