import Bindery.Decl.Render
import Bindery.Diagnostic
import Bindery.Graph.Components

/-!
# The order of emission

Declarations are written so that each one comes after all that it depends on.
`Bindery.emit` puts them into such an order in three steps.

* They are **sifted** (`Bindery.Emission.sift`): what has no key does not stand on its
  own, and of those with the same key only the first is kept.
* What is kept becomes the **dependency graph** (`Bindery.Emission.graph`), with a node
  for each key that is declared or depended upon.
* The groups of nodes that depend on each other are **placed** in the order of
  dependency (`Bindery.Emission.place`). A group of several nodes cannot be written one
  after the other, so it is left out as a whole; a node that was never declared leaves
  nothing behind.
-/

namespace Bindery

open Decl (Key)

/-- **Declarations in a safe order**, and what was left out of them. -/
structure Emission where
  decls : List Decl
  report : Report
  deriving DecidableEq, Repr

namespace Emission

/-! ### Sifting -/

/-- The declarations that stand on their own with their keys, the first for each key
that was not seen before. -/
def sift : Std.TreeSet Key → List Decl → List (Key × Decl) × Report
  | _, [] => ([], ∅)
  | seen, decl :: decls =>
    match decl.key? with
    | none =>
      let (kept, report) := sift seen decls
      (kept, .debug (decl.name ++ " does not stand alone, not emitting it") ++ report)
    | some key =>
      if seen.contains key then
        let (kept, report) := sift seen decls
        (kept, .skipped ("skipping duplicate declaration of `" ++ key.name ++ "`") ++ report)
      else
        let (kept, report) := sift (seen.insert key) decls
        ((key, decl) :: kept, report)

/-! ### The dependency graph -/

/-- The graph with a declaration in it, and edges to what it depends on. -/
def addDecl (graph : Graph Key) (key : Key) (decl : Decl) : Graph Key :=
  decl.dependencies.toList.foldl (fun graph dependency => graph.addEdge key dependency)
    (graph.addNode key)

/-- The graph of some declarations. -/
def graph (kept : List (Key × Decl)) : Graph Key :=
  kept.foldl (fun graph (key, decl) => addDecl graph key decl) .empty

/-- The groups of keys that depend on each other, in the order of dependency. -/
def groups (kept : List (Key × Decl)) : List (List Key) :=
  let graph := graph kept
  graph.components.map fun group => group.map graph.key

/-! ### Placing -/

/-- What a group of keys leaves in the bindings: the declaration of a key that stands
alone, if there is one. -/
def place (declared : Std.TreeMap Key Decl) : List Key → List Decl × Report
  | [key] =>
    match declared[key]? with
    | some decl => ([decl], ∅)
    | none => ([], .debug (key.name ++ " was never built, dropping it"))
  | keys =>
    ([], .ofDiagnostic (.cycle ((keys.map Key.name).mergeSort fun a b => (compare a b).isLE)))

end Emission

/-- **Declarations in a safe order**: each comes after all that it depends on. -/
def emit (decls : List Decl) : Emission :=
  let (kept, report) := Emission.sift ∅ decls
  let placed := (Emission.groups kept).map (Emission.place (.ofList kept))
  { decls := placed.flatMap Prod.fst
    report := report ++ .concat (placed.map Prod.snd) }

/-- The text of declarations in order, under a header that names the files they come
from. -/
def Emission.render (sources : List String) (decls : List Decl) : String :=
  "# Generated by nimbind from: " ++ String.intercalate ", " sources ++ "\n" ++
    String.join (decls.map fun decl => decl.render ++ "\n")

end Bindery
