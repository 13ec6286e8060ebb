import Std.Data.TreeMap

/-!
# Graphs of named nodes

A `Bindery.Graph` is built up by naming its nodes and its edges. A node is known from
the time when it is first mentioned, be it by an edge, and gets the next free number
then; nodes and edges that are there already are not added again.

The numbers are what the searches work with. That they stay below the number of nodes
is part of the type, so the successors of a node (`Bindery.Graph.successors`) are nodes
again.
-/

namespace Bindery

/-- **A graph whose nodes have names**. -/
structure Graph (κ : Type) [Ord κ] where
  /-- The names of the nodes, by number. -/
  keys : Array κ
  /-- The number of each name. -/
  index : Std.TreeMap κ Nat
  /-- The numbers of the targets of each node's edges, in the order of the edges. -/
  edges : Array (List Nat)
  size_edges : edges.size = keys.size
  index_lt : ∀ {key : κ} {id : Nat}, index[key]? = some id → id < keys.size
  edges_lt : ∀ {targets : List Nat}, targets ∈ edges → ∀ {id : Nat}, id ∈ targets → id < keys.size

namespace Graph

variable {κ : Type} [Ord κ]

/-- The graph without nodes. -/
def empty : Graph κ where
  keys := #[]
  index := ∅
  edges := #[]
  size_edges := rfl
  index_lt := nofun
  edges_lt := nofun

instance : Inhabited (Graph κ) := ⟨empty⟩

/-- The number of nodes. -/
abbrev size (graph : Graph κ) : Nat := graph.keys.size

/-- The number of the node with this name. -/
def id? (graph : Graph κ) (key : κ) : Option Nat := graph.index[key]?

/-- The name of a node. -/
def key (graph : Graph κ) (id : Fin graph.size) : κ := graph.keys[id]

/-! ### Adding nodes and edges -/

/-- The graph in which there is a node of this name. -/
def addNode [Std.TransOrd κ] (graph : Graph κ) (key : κ) : Graph κ :=
  match graph.id? key with
  | some _ => graph
  | none =>
    { keys := graph.keys.push key
      index := graph.index.insert key graph.size
      edges := graph.edges.push []
      size_edges := by simp [graph.size_edges]
      index_lt := by
        intro key' id h
        rw [Std.TreeMap.getElem?_insert] at h
        rw [Array.size_push]
        split at h
        · cases h
          exact Nat.lt_succ_self _
        · exact Nat.lt_succ_of_lt (graph.index_lt h)
      edges_lt := by
        intro targets h id hid
        rw [Array.size_push]
        rcases Array.mem_push.1 h with h | rfl
        · exact Nat.lt_succ_of_lt (graph.edges_lt h hid)
        · cases hid }

/-- The targets of a node's edges with one more, unless it is one already. -/
def addTarget (targets : List Nat) (target : Nat) : List Nat :=
  if target ∈ targets then targets else targets ++ [target]

/-- The graph in which there is an edge between two numbered nodes. -/
def addEdgeBetween (graph : Graph κ) (source : Nat) (target : Nat) (h : target < graph.size) :
    Graph κ :=
  { graph with
    edges := graph.edges.modify source (addTarget · target)
    size_edges := by rw [Array.size_modify, graph.size_edges]
    edges_lt := by
      intro targets hmem id hid
      obtain ⟨i, hi, rfl⟩ := Array.getElem_of_mem hmem
      rw [Array.getElem_modify] at hid
      have hlt : i < graph.edges.size := Nat.lt_of_lt_of_eq hi Array.size_modify
      have old : ∀ {id}, id ∈ graph.edges[i] → id < graph.keys.size :=
        fun hid => graph.edges_lt (Array.getElem_mem hlt) hid
      split at hid
      · rw [addTarget] at hid
        split at hid
        · exact old hid
        · rcases List.mem_append.1 hid with hid | hid
          · exact old hid
          · rwa [List.mem_singleton.1 hid]
      · exact old hid }

/-- **The graph in which there is an edge** between the nodes of these names, and so the
nodes themselves, the source before the target. -/
def addEdge [Std.TransOrd κ] (graph : Graph κ) (source target : κ) : Graph κ :=
  let graph := (graph.addNode source).addNode target
  match graph.id? source, ht : graph.id? target with
  | some source, some target => graph.addEdgeBetween source target (graph.index_lt ht)
  | _, _ => graph

/-! ### Successors -/

/-- **The targets of a node's edges**, in the order in which they were added. -/
def successors (graph : Graph κ) (id : Fin graph.size) : List (Fin graph.size) :=
  have h : id < graph.edges.size := Nat.lt_of_lt_of_eq id.isLt graph.size_edges.symm
  graph.edges[id].pmap Fin.mk fun _ hid => graph.edges_lt (Array.getElem_mem h) hid

end Graph

end Bindery
