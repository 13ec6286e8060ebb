import Bindery.Counting
import Bindery.Graph.Basic

/-!
# Strongly connected components

Two nodes of a graph belong together if each can be reached from the other. This file
finds the groups of nodes that belong together by one walk in depth first order, which
numbers the nodes as it **enters** them. The nodes whose group is not known yet are kept
on a **stack**; the walk itself is kept as a list of **frames**, one for each node on
the way from the root to where the walk is, so a long way through the graph is no
obstacle.

Every node has a **low link**: the least number of a node on the stack that the walk
has seen from it, directly or through the nodes after it. If the walk leaves a node
whose low link is its own number, the nodes from there to the top of the stack are a
group.

`Bindery.Graph.Search.step` is one step of the walk. Each step lowers
`Bindery.Graph.Search.potential`, which counts the edges not looked at yet, so the walk
ends. The groups come out in the order of dependency: an edge never leads to a group
that comes later.
-/

namespace Bindery.Graph

variable {n : Nat}

/-! ### The state of a walk -/

/-- A node on the way, with those of its successors that the walk has not looked at. -/
structure Frame (n : Nat) where
  node : Fin n
  rest : List (Fin n)
  deriving DecidableEq, Repr

/-- **The state of a walk** through a graph with so many nodes. -/
structure Search (n : Nat) where
  /-- The number that each node got when it was entered. -/
  indices : Vector (Option Nat) n
  /-- The low link of each node that was entered. -/
  lowlinks : Vector Nat n
  /-- Whether a node is on the stack. -/
  onStack : Vector Bool n
  /-- The nodes that were entered and have no group yet, the latest first. -/
  stack : List (Fin n)
  /-- The number for the next node. -/
  next : Nat
  /-- The groups, in the order in which they were found. -/
  components : Array (List (Fin n))
  /-- The way from the root to where the walk is, the latest first. -/
  work : List (Frame n)

namespace Search

/-- The state before any walk. -/
def initial (n : Nat) : Search n where
  indices := Vector.replicate n none
  lowlinks := Vector.replicate n 0
  onStack := Vector.replicate n false
  stack := []
  next := 0
  components := #[]
  work := []

/-! ### Steps -/

/-- A node is entered: it gets a number, and its successors are to be looked at. -/
def enter (successors : Fin n → List (Fin n)) (search : Search n) (node : Fin n) : Search n :=
  { search with
    indices := search.indices.set node (some search.next)
    lowlinks := search.lowlinks.set node search.next
    onStack := search.onStack.set node true
    stack := node :: search.stack
    next := search.next + 1
    work := ⟨node, successors node⟩ :: search.work }

/-- The low link of a node becomes no greater than this. -/
def lower (search : Search n) (node : Fin n) (bound : Nat) : Search n :=
  { search with lowlinks := search.lowlinks.set node (min search.lowlinks[node] bound) }

/-- The nodes of a stack down to this one, and those below it. -/
def popThrough (node : Fin n) : List (Fin n) → List (Fin n) × List (Fin n)
  | [] => ([], [])
  | member :: stack =>
    if member = node then ([member], stack)
    else
      let (members, stack) := popThrough node stack
      (member :: members, stack)

/-- The nodes from the top of the stack down to this one become a group, in the order
in which they were entered. -/
def close (search : Search n) (node : Fin n) : Search n :=
  let (members, stack) := popThrough node search.stack
  { search with
    onStack := members.foldl (fun onStack (member : Fin n) => onStack.set member false)
      search.onStack
    stack
    components := search.components.push members.reverse }

/-- The walk goes back from a node to the one before it on the way, which learns its
low link. -/
def leave (search : Search n) (node : Fin n) : Search n :=
  let search :=
    match search.work with
    | [] => search
    | caller :: _ => search.lower caller.node search.lowlinks[node]
  -- nothing before the node was seen from it, so its group ends here
  if search.indices[node] = some search.lowlinks[node] then search.close node else search

/-- **One step of a walk**. It enters the next successor of the node where the walk is,
takes note of one that was entered before, or leaves a node that has no further
successors. -/
def step (successors : Fin n → List (Fin n)) (search : Search n) : Search n :=
  match search.work with
  | [] => search
  | ⟨node, []⟩ :: work => { search with work }.leave node
  | ⟨node, target :: rest⟩ :: work =>
    let search := { search with work := ⟨node, rest⟩ :: work }
    match search.indices[target] with
    | none => search.enter successors target
    -- a node that is not on the stack has its group already
    | some index => if search.onStack[target] then search.lower node index else search

/-! ### The end of a walk -/

/-- What the edges of a node that was not entered count for. -/
def openWeight (successors : Fin n → List (Fin n)) (indices : Vector (Option Nat) n)
    (node : Fin n) : Nat :=
  if indices[node].isNone then (successors node).length + 2 else 0

/-- **How much of a walk is left at most**: the edges of the nodes that were not
entered, and the rest of the way. -/
def potential (successors : Fin n → List (Fin n)) (search : Search n) : Nat :=
  total (List.ofFn (openWeight successors search.indices)) +
    total (search.work.map fun frame => frame.rest.length + 1)

theorem potential_enter_lt {successors : Fin n → List (Fin n)} {search : Search n}
    {node : Fin n} (h : search.indices[node] = none) :
    (search.enter successors node).potential successors < search.potential successors := by
  have hsum := total_ofFn_add_le (f := openWeight successors (search.enter successors node).indices)
    (g := openWeight successors search.indices) (i := node) (k := (successors node).length + 2)
    (fun j => by
      simp only [openWeight, enter, Fin.getElem_fin, Vector.getElem_set]
      split <;> simp)
    (by simp [openWeight, enter, h])
  simp only [potential, enter, List.map_cons, total_cons] at hsum ⊢
  omega

theorem leave_indices (search : Search n) (node : Fin n) :
    (search.leave node).indices = search.indices := by
  simp only [leave]
  split <;> split <;> rfl

theorem leave_work (search : Search n) (node : Fin n) :
    (search.leave node).work = search.work := by
  simp only [leave]
  split <;> split <;> simp_all [close, lower]

theorem potential_step_lt (successors : Fin n → List (Fin n)) {search : Search n}
    (h : search.work ≠ []) :
    (search.step successors).potential successors < search.potential successors := by
  rw [step]
  split
  · next heq => exact absurd heq h
  · next node work heq =>
    simp only [potential, leave_indices, leave_work, heq, List.map_cons, total_cons]
    omega
  · next node target rest work heq =>
    have hlt : ({ search with work := ⟨node, rest⟩ :: work } : Search n).potential successors
        < search.potential successors := by
      simp only [potential, heq, List.map_cons, total_cons, List.length_cons]
      omega
    simp only
    split
    · next hnone => exact Nat.lt_trans (potential_enter_lt hnone) hlt
    · split
      · exact hlt
      · exact hlt

/-- **A walk to its end**. -/
def run (successors : Fin n → List (Fin n)) (search : Search n) : Search n :=
  if search.work.isEmpty then search else run successors (search.step successors)
termination_by search.potential successors
decreasing_by exact potential_step_lt successors (by simp_all)

/-- The walk from a node, unless an earlier one has been there. -/
def visit (successors : Fin n → List (Fin n)) (search : Search n) (root : Fin n) : Search n :=
  match search.indices[root] with
  | some _ => search
  | none => run successors (search.enter successors root)

/-- The walks from all nodes, one after the other. -/
def complete (successors : Fin n → List (Fin n)) : Search n :=
  (List.finRange n).foldl (visit successors) (initial n)

end Search

/-- **The groups of nodes that can be reached from each other**, each in the order in
which its nodes were entered. No edge leads from a group to a later one. -/
def components {κ : Type} [Ord κ] (graph : Graph κ) : List (List (Fin graph.size)) :=
  (Search.complete graph.successors).components.toList

end Bindery.Graph
