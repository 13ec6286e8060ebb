import Bindery.Proofs.Graph.Components
import Mathlib.Logic.Function.Iterate

/-!
# The walk on bare numbers

In the state of a walk (`Bindery.Graph.Search`) a node is a number together with the fact that there
is such a node, so nothing can be looked up in a place that there is not. This file has the same
walk with nothing but numbers: the state (`Bindery.Graph.Bare`) is arrays of whatever size and lists
of whatever numbers, a frame says which edge of its node is the next by its place among the edges,
and each time an array is read or written, the place is **checked**. A step fails
(`Bindery.Graph.Bare.step?`) if one of its places is not in the array.

None of them ever fails. What a state is with nothing but numbers (`Bindery.Graph.Search.bare`) goes
to what the next state is with nothing but numbers (`Bindery.Graph.Search.step?_bare`), as long as
each frame holds the last edges of its node (`Bindery.Graph.Search.Begun`), and so for any number of
steps (`Bindery.Graph.Search.steps?_bare`).
-/

namespace Bindery.Graph

/-! ### Steps that check each place -/

/-- **The state of a walk on bare numbers**. A frame is a node and the place of the next edge. -/
structure Bare where
  indices : Array (Option ℕ)
  lowlinks : Array ℕ
  onStack : Array Bool
  stack : List ℕ
  next : ℕ
  components : Array (List ℕ)
  work : List (ℕ × ℕ)

/-- The array with another value in a place, if it has the place. -/
def put? {α : Type} (xs : Array α) (i : ℕ) (a : α) : Option (Array α) :=
  if h : i < xs.size then some (xs.set i a h) else none

namespace Bare

def enter? (state : Bare) (node : ℕ) : Option Bare := do
  let indices ← put? state.indices node (some state.next)
  let lowlinks ← put? state.lowlinks node state.next
  let onStack ← put? state.onStack node true
  some { state with
    indices, lowlinks, onStack
    stack := node :: state.stack
    next := state.next + 1
    work := (node, 0) :: state.work }

def lower? (state : Bare) (node bound : ℕ) : Option Bare := do
  let low ← state.lowlinks[node]?
  let lowlinks ← put? state.lowlinks node (min low bound)
  some { state with lowlinks }

/-- The nodes of a stack down to this one, those below it, and the flags with theirs taken down. -/
def popThrough? (node : ℕ) : List ℕ → Array Bool → Option (List ℕ × List ℕ × Array Bool)
  | [], onStack => some ([], [], onStack)
  | member :: stack, onStack => do
    let onStack ← put? onStack member false
    if member = node then some ([member], stack, onStack)
    else
      let (members, stack, onStack) ← popThrough? node stack onStack
      some (member :: members, stack, onStack)

def close? (state : Bare) (node : ℕ) : Option Bare := do
  let (members, stack, onStack) ← popThrough? node state.stack state.onStack
  some { state with onStack, stack, components := state.components.push members.reverse }

/-- The node before a node on the way learns its low link. -/
def tell? (state : Bare) (node : ℕ) : Option Bare :=
  match state.work with
  | [] => some state
  | (caller, _) :: _ => do state.lower? caller (← state.lowlinks[node]?)

def leave? (state : Bare) (node : ℕ) : Option Bare := do
  let state ← state.tell? node
  let index ← state.indices[node]?
  let low ← state.lowlinks[node]?
  if index = some low then state.close? node else some state

/-- The same state with the walk on another way. -/
def onto (state : Bare) (work : List (ℕ × ℕ)) : Bare := { state with work }

/-- **One step that checks each place** it reads or writes. An edge that there is not is no failure:
the node has no further ones. -/
def step? (edges : Array (List ℕ)) (state : Bare) : Option Bare :=
  match state.work with
  | [] => some state
  | (node, edge) :: work => do
    let targets ← edges[node]?
    match targets[edge]? with
    | none => (state.onto work).leave? node
    | some target =>
      let state := state.onto ((node, edge + 1) :: work)
      match ← state.indices[target]? with
      | none => state.enter? target
      | some index => if ← state.onStack[target]? then state.lower? node index else some state

/-- So many steps, if all of them find their places. -/
def steps? (edges : Array (List ℕ)) : ℕ → Bare → Option Bare
  | 0, state => some state
  | turns + 1, state => do (← state.step? edges).steps? edges turns

/-- The walk from a node, for so many steps. -/
def visit? (edges : Array (List ℕ)) (state : Bare) (root turns : ℕ) : Option Bare := do
  (← state.enter? root).steps? edges turns

/-! ### What a step reads -/

section Reads

variable {edges : Array (List ℕ)} {state : Bare} {node edge target : ℕ} {work : List (ℕ × ℕ)}
  {targets : List ℕ} (hwork : state.work = (node, edge) :: work)
  (htargets : edges[node]? = some targets)

include hwork htargets

theorem step?_of_last (hlast : targets[edge]? = none) :
    state.step? edges = (state.onto work).leave? node := by
  simp [step?, hwork, htargets, hlast]

variable (hedge : targets[edge]? = some target) {taken : Bare}
  (htaken : state.onto ((node, edge + 1) :: work) = taken)

include hedge htaken

theorem step?_of_new (hindex : taken.indices[target]? = some none) :
    state.step? edges = taken.enter? target := by
  simp [step?, hwork, htargets, hedge, htaken, hindex]

theorem step?_of_known {index : ℕ} (hindex : taken.indices[target]? = some (some index))
    {flag : Bool} (hflag : taken.onStack[target]? = some flag) :
    state.step? edges = if flag then taken.lower? node index else some taken := by
  simp [step?, hwork, htargets, hedge, htaken, hindex, hflag]

end Reads

end Bare

/-! ### What a state is with nothing but numbers -/

namespace Search

variable {n : ℕ}

/-- A frame on bare numbers: what is left of the edges begins at this place among all of them. -/
def bareFrame (successors : Fin n → List (Fin n)) (frame : Frame n) : ℕ × ℕ :=
  (frame.node, (successors frame.node).length - frame.rest.length)

/-- **The state with nothing but numbers**. -/
def bare (successors : Fin n → List (Fin n)) (search : Search n) : Bare where
  indices := search.indices.toArray
  lowlinks := search.lowlinks.toArray
  onStack := search.onStack.toArray
  stack := search.stack.map Fin.val
  next := search.next
  components := search.components.map (List.map Fin.val)
  work := search.work.map (bareFrame successors)

/-- **Each frame holds the last edges of its node**: the others were looked at. -/
def Begun (successors : Fin n → List (Fin n)) (search : Search n) : Prop :=
  ∀ frame ∈ search.work, frame.rest <:+ successors frame.node

variable {successors : Fin n → List (Fin n)} {search : Search n} {node : Fin n}

/-! ### A step finds its places -/

section Places

variable {α : Type} (xs : Vector α n) (i : Fin n)

theorem put?_toArray (a : α) : put? xs.toArray i a = some (xs.set i a i.isLt).toArray := by
  rw [put?, dif_pos (xs.size_toArray.symm ▸ i.isLt)]
  rfl

theorem getElem?_toArray : xs.toArray[(i : ℕ)]? = some (xs.get i) := by
  simp [Vector.get]

end Places

theorem enter?_bare : (search.bare successors).enter? node =
    some ((search.enter successors node).bare successors) := by
  simp [Bare.enter?, bare, put?_toArray, enter, bareFrame]

theorem lower?_bare {bound : ℕ} : (search.bare successors).lower? node bound =
    some ((search.lower node bound).bare successors) := by
  simp [Bare.lower?, bare, put?_toArray, lower]

/-- Each node that leaves the stack has its flag taken down, one after the other. -/
theorem popThrough?_map (node : Fin n) (stack : List (Fin n)) (onStack : Vector Bool n) :
    Bare.popThrough? node (stack.map Fin.val) onStack.toArray =
      some ((popThrough node stack).1.map Fin.val, (popThrough node stack).2.map Fin.val,
        ((popThrough node stack).1.foldl
          (fun onStack (member : Fin n) => onStack.set member false member.isLt)
            onStack).toArray) := by
  induction stack generalizing onStack with
  | nil => rfl
  | cons member stack ih =>
    rw [List.map_cons, Bare.popThrough?, put?_toArray, Option.bind_eq_bind, Option.bind_some]
    by_cases heq : member = node
    · simp [popThrough, heq]
    · have hval : (member : ℕ) ≠ node := fun h => heq (Fin.ext h)
      rw [if_neg hval, ih]
      simp [popThrough, heq]

theorem close?_bare : (search.bare successors).close? node =
    some ((search.close node).bare successors) := by
  have hpop := popThrough?_map node search.stack search.onStack
  simp [Bare.close?, bare, close, hpop]

/-- The state after the node before a node has learnt its low link. -/
def told (search : Search n) (node : Fin n) : Search n :=
  match search.work with
  | [] => search
  | caller :: _ => search.lower caller.node (search.lowlinks.get node)

theorem tell?_bare : (search.bare successors).tell? node =
    some ((search.told node).bare successors) := by
  have hbare : (search.bare successors).work =
      search.work.map (bareFrame successors) := rfl
  rw [Bare.tell?, told, hbare]
  cases search.work with
  | nil => rfl
  | cons caller work =>
    have hlow : (search.bare successors).lowlinks[(node : ℕ)]? = some search.lowlinks[node] :=
      getElem?_toArray _ _
    rw [List.map_cons]
    dsimp only
    rw [hlow]
    exact lower?_bare

theorem leave?_bare (search : Search n) (node : Fin n) : (search.bare successors).leave? node =
    some ((search.leave node).bare successors) := by
  have hindex : ((search.told node).bare successors).indices[(node : ℕ)]? =
      some (search.told node).indices[node] := getElem?_toArray _ _
  have hlow : ((search.told node).bare successors).lowlinks[(node : ℕ)]? =
      some (search.told node).lowlinks[node] := getElem?_toArray _ _
  have hleave : search.leave node =
      if (search.told node).indices[node] = some (search.told node).lowlinks[node]
      then (search.told node).close node else search.told node := rfl
  simp only [Bare.leave?, tell?_bare, hindex, hlow, Option.bind_eq_bind, Option.bind_some]
  rw [hleave]
  split
  · exact close?_bare
  · rfl

/-! ### A walk finds its places -/

theorem Begun.enter (h : search.Begun successors) :
    (search.enter successors node).Begun successors := by
  intro frame hframe
  rcases List.mem_cons.mp hframe with rfl | hframe
  · exact List.suffix_rfl
  · exact h frame hframe

section Begun

variable {target : Fin n} {rest : List (Fin n)} {work : List (Frame n)}
  (h : search.Begun successors) (hwork : search.work = ⟨node, target :: rest⟩ :: work)

include h hwork

theorem Begun.takeUp : (search.onto (⟨node, rest⟩ :: work)).Begun successors := by
  intro frame hframe
  rcases List.mem_cons.mp hframe with rfl | hframe
  · exact (List.suffix_cons target rest).trans (h _ (hwork ▸ List.mem_cons_self))
  · exact h frame (hwork ▸ List.mem_cons_of_mem _ hframe)

/-- Of the edges of the node where the walk is, the first that is left stands at the place of its
frame. -/
theorem Begun.getElem?_eq : (successors node)[(bareFrame successors ⟨node, target :: rest⟩).2]? =
    some target := by
  obtain ⟨looked, heq⟩ := h _ (hwork ▸ List.mem_cons_self)
  have hlength : (bareFrame successors ⟨node, target :: rest⟩).2 = looked.length := by
    simp [bareFrame, ← heq]
  rw [hlength, ← heq]
  simp

/-- When that edge is taken up, the next one is at the next place. -/
theorem Begun.bareFrame_tail : bareFrame successors ⟨node, rest⟩ =
    ((node : ℕ), (bareFrame successors ⟨node, target :: rest⟩).2 + 1) := by
  obtain ⟨looked, heq⟩ := h _ (hwork ▸ List.mem_cons_self)
  simp only [bareFrame, ← heq, List.length_append, List.length_cons, Prod.mk.injEq, true_and]
  omega

end Begun

theorem Begun.step (h : search.Begun successors) : (search.step successors).Begun successors := by
  rcases hwork : search.work with _ | ⟨⟨node, _ | ⟨target, rest⟩⟩, work⟩
  · rwa [step_nil hwork]
  · rw [step_back hwork, Begun, leave_work]
    exact fun frame hframe => h frame (hwork ▸ List.mem_cons_of_mem _ hframe)
  · have htaken := h.takeUp hwork
    rw [step_edge hwork]
    split
    · exact htaken.enter
    · split <;> exact htaken

section Walk

variable {edges : Array (List ℕ)}
  (hedges : ∀ node : Fin n, edges[(node : ℕ)]? = some ((successors node).map Fin.val))

include hedges

/-- **A step finds all its places**, and does with bare numbers what it does with nodes. -/
theorem step?_bare (h : search.Begun successors) : (search.bare successors).step? edges =
    some ((search.step successors).bare successors) := by
  have hbare : (search.bare successors).work = search.work.map (bareFrame successors) := rfl
  rcases hwork : search.work with _ | ⟨⟨node, _ | ⟨target, rest⟩⟩, work⟩ <;>
    rw [hwork] at hbare
  · rw [step_nil hwork, Bare.step?, hbare]
    rfl
  · have hlast : ((successors node).map Fin.val)[(bareFrame successors ⟨node, []⟩).2]? = none := by
      simp [bareFrame]
    rw [step_back hwork, Bare.step?_of_last hbare (hedges node) hlast]
    exact leave?_bare (search.onto work) node
  · have hfirst : ((successors node).map Fin.val)[(bareFrame successors
        ⟨node, target :: rest⟩).2]? = some (target : ℕ) := by
      rw [List.getElem?_map, h.getElem?_eq hwork, Option.map_some]
    have htaken : (search.bare successors).onto (((node : ℕ),
        (bareFrame successors ⟨node, target :: rest⟩).2 + 1) :: work.map (bareFrame successors)) =
        (search.onto (⟨node, rest⟩ :: work)).bare successors := by
      rw [← h.bareFrame_tail hwork]
      rfl
    have hindex : ((search.onto (⟨node, rest⟩ :: work)).bare successors).indices[(target : ℕ)]? =
        some (search.index? target) := getElem?_toArray _ _
    have hflag : ((search.onto (⟨node, rest⟩ :: work)).bare successors).onStack[(target : ℕ)]? =
        some (search.isOnStack target) := getElem?_toArray _ _
    rw [step_edge hwork]
    rcases hknown : search.index? target with _ | index <;> rw [hknown] at hindex
    · rw [Bare.step?_of_new hbare (hedges node) hfirst htaken hindex]
      exact enter?_bare
    · rw [Bare.step?_of_known hbare (hedges node) hfirst htaken hindex hflag]
      cases search.isOnStack target with
      | true => exact lower?_bare
      | false => rfl

/-- **A walk finds all its places**, however many steps it takes. -/
theorem steps?_bare (h : search.Begun successors) (turns : ℕ) :
    (search.bare successors).steps? edges turns =
      some (((step successors)^[turns] search).bare successors) := by
  induction turns generalizing search with
  | zero => rfl
  | succ turns ih =>
    rw [Bare.steps?, step?_bare hedges h, Option.bind_eq_bind, Option.bind_some, ih h.step,
      Function.iterate_succ_apply]

/-- **The walk from a node finds all its places**, however many steps it takes. -/
theorem visit?_bare (h : search.Begun successors) (root : Fin n) (turns : ℕ) :
    (search.bare successors).visit? edges root turns =
      some (((step successors)^[turns] (search.enter successors root)).bare successors) := by
  rw [Bare.visit?, enter?_bare, Option.bind_eq_bind, Option.bind_some, steps?_bare hedges h.enter]

end Walk

end Search

/-- The edges of a graph are there for each of its nodes, as numbers. -/
theorem getElem?_edges {κ : Type} [Ord κ] (graph : Graph κ) (node : Fin graph.size) :
    graph.edges[(node : ℕ)]? = some ((graph.successors node).map Fin.val) := by
  have hlt : (node : ℕ) < graph.edges.size := graph.size_edges.symm ▸ node.isLt
  rw [Array.getElem?_eq_getElem hlt, successors]
  simp [List.map_pmap]

end Bindery.Graph
