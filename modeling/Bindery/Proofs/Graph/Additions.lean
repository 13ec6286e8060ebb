import Bindery.Decl.Key
import Bindery.Proofs.Graph.Growth
import Mathlib.Data.List.Induction

/-!
# What a graph keeps of its additions

A graph is grown by one **addition** after the other (`Bindery.Graph.Addition`): a node, or an
edge, which mentions the names of two. This file says what is in a graph after any number of
them, part by part (`Bindery.Graph.Records`). The names stand in the order in which they were
first mentioned; the index leads from each of them back to its place; and beside each name there
is a list of targets, in which the target of each edge that was added stands once.

An addition keeps the parts in step (`Bindery.Graph.Records.add`), so they are in step in every
graph that is grown from the empty one. The number of a name is its place among the names, and
names are only ever put at the end: a number that a node was given is its number for good
(`Bindery.Graph.ofAdditions_records`).
-/

namespace Bindery.Graph

/-! ### Additions -/

/-- **An addition to a graph**. -/
inductive Addition (κ : Type) where
  /-- A node of this name. -/
  | node (key : κ)
  /-- An edge between the nodes of these names. -/
  | edge (source target : κ)
  deriving DecidableEq

/-- The names that an addition mentions, the source of an edge before its target. -/
def Addition.mentions {κ : Type} : Addition κ → List κ
  | node key => [key]
  | edge source target => [source, target]

variable {κ : Type} [Ord κ]

/-- The graph with one more addition. -/
def add [Std.TransOrd κ] (graph : Graph κ) : Addition κ → Graph κ
  | .node key => graph.addNode key
  | .edge source target => graph.addEdge source target

/-- **The graph that is grown** by these additions, from the first to the last. -/
def ofAdditions [Std.TransOrd κ] (additions : List (Addition κ)) : Graph κ :=
  additions.foldl add empty

/-- **A graph records these additions**, and nothing else. -/
structure Records [BEq κ] (graph : Graph κ) (additions : List (Addition κ)) : Prop where
  /-- The names are those that were mentioned, in the order in which each was mentioned first. -/
  keys_eq : graph.keys.toList = (additions.flatMap Addition.mentions).eraseDups
  nodup_keys : graph.keys.toList.Nodup
  /-- The index has the place of each name, and no other names. -/
  index_iff : ∀ (key : κ) (id : ℕ), graph.index[key]? = some id ↔ graph.keys[id]? = some key
  /-- There is a list of targets for each node. -/
  size_edges_eq : graph.edges.size = graph.keys.size
  /-- Targets are nodes. -/
  target_lt : ∀ targets ∈ graph.edges, ∀ id ∈ targets, id < graph.size
  /-- No target stands twice in a list. -/
  nodup_targets : ∀ targets ∈ graph.edges, targets.Nodup
  /-- A node is a target of another if an edge to it was added. -/
  mem_targets_iff : ∀ (i j : ℕ) (source target : κ) (targets : List ℕ),
    graph.keys[i]? = some source → graph.keys[j]? = some target →
      graph.edges[i]? = some targets → (j ∈ targets ↔ .edge source target ∈ additions)

variable {graph : Graph κ} {additions : List (Addition κ)}

/-! ### Parts and names

What is recorded of edges is what the graph shows of them by the names of their nodes.
-/

namespace Records

variable [BEq κ]

/-- What a graph shows and the order of its names are all there is to say about its parts, as long
as no target stands in a list twice. -/
theorem of_shows (hkeys : graph.keys.toList = (additions.flatMap Addition.mentions).eraseDups)
    (hnodup : ∀ targets ∈ graph.edges, targets.Nodup)
    (h : graph.Shows (· ∈ additions.flatMap Addition.mentions) fun source target =>
      .edge source target ∈ additions) : graph.Records additions where
  keys_eq := hkeys
  nodup_keys := h.named.nodup_keys
  index_iff := h.named
  size_edges_eq := graph.size_edges
  target_lt _ htargets _ hid := graph.edges_lt htargets hid
  nodup_targets := hnodup
  mem_targets_iff i j source target targets hi hj htargets := by
    rw [← h.links]
    constructor
    · exact fun hmem => ⟨i, j, targets, hi, hj, htargets, hmem⟩
    · rintro ⟨i', j', targets', hi', hj', htargets', hmem⟩
      obtain rfl := h.named.id_inj hi hi'
      obtain rfl := h.named.id_inj hj hj'
      cases htargets.symm.trans htargets'
      exact hmem

theorem empty [Std.TransOrd κ] : (Graph.empty : Graph κ).Records [] :=
  .of_shows rfl (by simp [Graph.empty]) (shows_empty.congr (fun _ => by simp) fun _ _ => by simp)

variable [LawfulBEq κ]

theorem mem_keys_iff (h : graph.Records additions) {key : κ} :
    key ∈ graph.keys ↔ key ∈ additions.flatMap Addition.mentions := by
  rw [← Array.mem_toList_iff, h.keys_eq, List.mem_eraseDups]

theorem links_iff (h : graph.Records additions) {source target : κ} :
    graph.Links source target ↔ .edge source target ∈ additions := by
  constructor
  · rintro ⟨i, j, targets, hi, hj, htargets, hmem⟩
    exact (h.mem_targets_iff i j source target targets hi hj htargets).mp hmem
  · intro hedge
    have hknown : ∀ {key}, key ∈ [source, target] → ∃ i, graph.keys[i]? = some key :=
      fun hkey => Array.mem_iff_getElem?.mp
        (h.mem_keys_iff.mpr (List.mem_flatMap.mpr ⟨_, hedge, hkey⟩))
    obtain ⟨i, hi⟩ := hknown (List.mem_pair.mpr (Or.inl rfl))
    obtain ⟨j, hj⟩ := hknown (List.mem_pair.mpr (Or.inr rfl))
    have hlt : i < graph.edges.size := h.size_edges_eq ▸ (Array.getElem?_eq_some_iff.mp hi).1
    have htargets := Array.getElem?_eq_getElem hlt
    exact ⟨i, j, _, hi, hj, htargets,
      (h.mem_targets_iff i j source target _ hi hj htargets).mpr hedge⟩

theorem shows (h : graph.Records additions) :
    graph.Shows (· ∈ additions.flatMap Addition.mentions) fun source target =>
      .edge source target ∈ additions where
  named := h.index_iff
  mem_keys _ := h.mem_keys_iff
  links _ _ := h.links_iff

end Records

/-! ### The order of the names -/

section Names

variable [BEq κ] [LawfulBEq κ] {names : List κ} {key : κ}

omit [Ord κ] in
theorem eraseDups_concat : (names ++ [key]).eraseDups =
    if key ∈ names then names.eraseDups else names.eraseDups ++ [key] := by
  rw [List.eraseDups_append]
  split
  · next hmem => simp [List.removeAll, hmem]
  · next hmem => simp [List.removeAll, hmem, List.eraseDups_cons]

variable [Std.TransOrd κ]

/-- A name that was mentioned before keeps its place, and a new one comes last. -/
theorem toList_keys_addNode (h : graph.Named) (hkeys : graph.keys.toList = names.eraseDups)
    (key : κ) : (graph.addNode key).keys.toList = (names ++ [key]).eraseDups := by
  have hmem : key ∈ names ↔ ∃ id, graph.id? key = some id := by
    rw [← List.mem_eraseDups, ← hkeys, Array.mem_toList_iff, h.mem_keys_iff]
  rcases hid : graph.id? key with _ | id
  · rw [(addNode_of_none hid).1, Array.toList_push, hkeys, eraseDups_concat,
      if_neg (by simp [hmem, hid])]
  · rw [addNode_of_some hid, hkeys, eraseDups_concat, if_pos (hmem.mpr ⟨id, hid⟩)]

theorem toList_keys_addEdge [Std.LawfulEqOrd κ] (h : graph.Named)
    (hkeys : graph.keys.toList = names.eraseDups) (source target : κ) :
    (graph.addEdge source target).keys.toList = (names ++ [source, target]).eraseDups := by
  obtain ⟨i, j, hj, -, -, heq⟩ := addEdge_eq h source target
  have hsource := toList_keys_addNode h hkeys source
  have hboth := toList_keys_addNode (h.addNode source) hsource target
  rw [List.append_assoc] at hboth
  rw [heq]
  exact hboth

end Names

/-! ### The targets of edges -/

section Targets

theorem nodup_addTarget {targets : List ℕ} {target : ℕ} (h : targets.Nodup) :
    (addTarget targets target).Nodup := by
  rw [addTarget]
  split
  · exact h
  · next hnew => exact h.append (List.nodup_singleton target) (by simpa using hnew)

variable [Std.TransOrd κ]

theorem nodup_targets_addNode (h : ∀ targets ∈ graph.edges, targets.Nodup) (key : κ) :
    ∀ targets ∈ (graph.addNode key).edges, targets.Nodup := by
  rcases hid : graph.id? key with _ | id
  · rw [(addNode_of_none hid).2.2]
    intro targets htargets
    rcases Array.mem_push.mp htargets with hold | rfl
    · exact h targets hold
    · exact List.nodup_nil
  · rwa [addNode_of_some hid]

theorem nodup_targets_addEdge [Std.LawfulEqOrd κ] (hnamed : graph.Named)
    (h : ∀ targets ∈ graph.edges, targets.Nodup) (source target : κ) :
    ∀ targets ∈ (graph.addEdge source target).edges, targets.Nodup := by
  obtain ⟨i, j, hj, -, -, heq⟩ := addEdge_eq hnamed source target
  have hboth := nodup_targets_addNode (nodup_targets_addNode h source) target
  rw [heq]
  intro targets htargets
  obtain ⟨k, hk⟩ := Array.mem_iff_getElem?.mp htargets
  rw [getElem?_edges_addEdgeBetween] at hk
  split at hk
  · obtain ⟨old, hold, rfl⟩ := Option.map_eq_some_iff.mp hk
    exact nodup_addTarget (hboth old (Array.mem_of_getElem? hold))
  · exact hboth targets (Array.mem_of_getElem? hk)

end Targets

/-! ### One addition, and all of them -/

namespace Records

variable [Std.TransOrd κ] [Std.LawfulEqOrd κ] [BEq κ] [LawfulBEq κ]

/-- **An addition is recorded**, after those that are. -/
theorem add (h : graph.Records additions) (addition : Addition κ) :
    (graph.add addition).Records (additions ++ [addition]) := by
  have hmentions : (additions ++ [addition]).flatMap Addition.mentions =
      additions.flatMap Addition.mentions ++ addition.mentions := by simp
  cases addition with
  | node key =>
    refine .of_shows ?_ (nodup_targets_addNode h.nodup_targets key)
      ((h.shows.addNode key).congr (fun name => ?_) fun a b => ?_)
    · rw [hmentions]
      exact toList_keys_addNode h.index_iff h.keys_eq key
    · rw [hmentions, List.mem_append, Addition.mentions, List.mem_singleton, or_comm]
    · simp
  | edge source target =>
    refine .of_shows ?_ (nodup_targets_addEdge h.index_iff h.nodup_targets source target)
      ((h.shows.addEdge source target).congr (fun name => ?_) fun a b => ?_)
    · rw [hmentions]
      exact toList_keys_addEdge h.index_iff h.keys_eq source target
    · rw [hmentions, List.mem_append, Addition.mentions, List.mem_pair, ← or_assoc, or_comm]
    · simp

/-- All additions are recorded. -/
theorem ofAdditions (additions : List (Addition κ)) :
    (Graph.ofAdditions additions).Records additions := by
  induction additions using List.reverseRecOn with
  | nil => exact .empty
  | append_singleton additions addition ih =>
    rw [Graph.ofAdditions, List.foldl_concat]
    exact ih.add addition

end Records

/-! ### The numbers that are given -/

section Numbers

variable [Std.TransOrd κ] [Std.LawfulEqOrd κ] {key : κ} {id : ℕ}

/-- **The number that a node is given**: the one that it has, or the next one that is free. -/
theorem Named.id?_addNode (h : graph.Named) (key : κ) :
    (graph.addNode key).id? key = some ((graph.id? key).getD graph.size) := by
  rcases hid : graph.id? key with _ | id
  · refine (h.addNode key key graph.size).mpr ?_
    rw [(addNode_of_none hid).1, Array.getElem?_push_size]
  · rw [addNode_of_some hid, hid, Option.getD_some]

theorem Named.add (h : graph.Named) (addition : Addition κ) : (graph.add addition).Named := by
  cases addition with
  | node key => exact h.addNode key
  | edge source target => exact h.addEdge source target

theorem keys_prefix_foldl_add (h : graph.Named) (additions : List (Addition κ)) :
    graph.keys.toList <+: (additions.foldl add graph).keys.toList := by
  induction additions generalizing graph with
  | nil => exact List.prefix_refl _
  | cons addition additions ih =>
    refine List.IsPrefix.trans ?_ (ih (h.add addition))
    cases addition with
    | node key => exact keys_prefix_addNode key
    | edge source target => exact keys_prefix_addEdge h source target

theorem getElem?_keys_foldl_add (h : graph.Named) (hkey : graph.keys[id]? = some key)
    (additions : List (Addition κ)) : (additions.foldl add graph).keys[id]? = some key := by
  obtain ⟨hid, hkey⟩ := Array.getElem?_eq_some_iff.mp hkey
  have hprefix := List.prefix_iff_getElem?.mp (keys_prefix_foldl_add h additions) id hid
  rwa [Array.getElem_toList, hkey, Array.getElem?_toList] at hprefix

variable [BEq κ] [LawfulBEq κ]

/-- **A graph records its additions**, whatever they are and in whatever order they come: its
parts are in step. The number that a node is given is the next one, unless it has one, and
nothing that is added later changes it. -/
theorem ofAdditions_records (additions more : List (Addition κ)) :
    (ofAdditions additions).Records additions ∧
      (∀ key, (ofAdditions (additions ++ [.node key])).id? key =
        some (((ofAdditions additions).id? key).getD (ofAdditions additions).size)) ∧
      ∀ key id, (ofAdditions additions).id? key = some id →
        (ofAdditions (additions ++ more)).id? key = some id ∧
          (ofAdditions (additions ++ more)).keys[id]? = some key := by
  have hrecords := Records.ofAdditions additions
  have hnamed : (ofAdditions additions).Named := hrecords.index_iff
  refine ⟨hrecords, fun key => ?_, fun key id hid => ?_⟩
  · rw [ofAdditions, List.foldl_concat]
    exact hnamed.id?_addNode key
  · have hkey : (ofAdditions (additions ++ more)).keys[id]? = some key := by
      rw [ofAdditions, List.foldl_append]
      exact getElem?_keys_foldl_add hnamed ((hnamed key id).mp hid) more
    exact ⟨((Records.ofAdditions (additions ++ more)).index_iff key id).mpr hkey, hkey⟩

end Numbers

/-- The same edge twice, a loop, and a node that is known already leave two names. A variable that
refers to one of them does not change the numbers of these. -/
theorem ofAdditions_records_shapes :
    let shape : Decl.Key := .type "Shape"
    let point : Decl.Key := .type "Point"
    let additions := [.edge point shape, .node shape, .edge point point, .edge point shape]
    let more := [.edge (.global "origin") point]
    (ofAdditions additions).keys = #[point, shape] ∧
      (ofAdditions additions).edges = #[[1, 0], []] ∧
      (ofAdditions additions).Records additions ∧
      (ofAdditions (additions ++ more)).id? shape = some 1 := by
  intro shape point additions more
  obtain ⟨hrecords, -, hstays⟩ := ofAdditions_records additions more
  have hkeys : (ofAdditions additions).keys = #[point, shape] :=
    Array.toList_inj.mp (hrecords.keys_eq.trans (by decide))
  have hid : (ofAdditions additions).id? shape = some 1 :=
    (hrecords.index_iff shape 1).mpr (by rw [hkeys]; rfl)
  exact ⟨hkeys, by decide +kernel, hrecords, (hstays shape 1 hid).1⟩

end Bindery.Graph
