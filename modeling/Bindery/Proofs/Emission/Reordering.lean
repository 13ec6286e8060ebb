import Bindery.Proofs.Decl.Reordering
import Bindery.Proofs.Emission.Order

/-!
# Emission up to the order of members

To put declarations in order only their keys and their dependencies are looked at. These do not
change when the members of types are reordered, so neither do the dependency graph
(`Bindery.Emission.graph_eq`) and its groups. The same is emitted, up to reordering, in the same
order (`Bindery.Emission.emit_reordered`), and the same is reported
(`Bindery.Emission.cycles_eq`, `Bindery.Emission.reused_eq`).
-/

namespace Bindery.Emission

open Decl (Key)

variable {decls decls' : List Decl} {seen : Std.TreeSet Key}

/-- The same key for two declarations that are the same up to reordering. -/
def SamePair (pair pair' : Key × Decl) : Prop := pair.1 = pair'.1 ∧ pair.2.Reordered pair'.2

/-- **The same is kept**, and the same is reported. -/
theorem sift_reordered (h : List.Forall₂ Decl.Reordered decls decls') :
    List.Forall₂ SamePair (sift seen decls).1 (sift seen decls').1 ∧
      (sift seen decls).2.diagnostics = (sift seen decls').2.diagnostics := by
  induction h generalizing seen with
  | nil => exact ⟨.nil, rfl⟩
  | @cons decl decl' decls decls' hdecl _ ih =>
    rcases hkey : decl.key? with _ | key
    · have hkey' := hdecl.key?_eq.symm.trans hkey
      rw [(sift_cons_none hkey).1, (sift_cons_none hkey).2, (sift_cons_none hkey').1,
        (sift_cons_none hkey').2]
      exact ih
    · have hkey' := hdecl.key?_eq.symm.trans hkey
      by_cases hseen : key ∈ seen
      · rw [(sift_cons_seen hkey hseen).1, (sift_cons_seen hkey hseen).2,
          (sift_cons_seen hkey' hseen).1, (sift_cons_seen hkey' hseen).2, ih.2]
        exact ⟨ih.1, rfl⟩
      · rw [(sift_cons_new hkey hseen).1, (sift_cons_new hkey hseen).2,
          (sift_cons_new hkey' hseen).1, (sift_cons_new hkey' hseen).2]
        exact ⟨.cons ⟨rfl, hdecl⟩ ih.1, ih.2⟩

/-- **The dependency graph is the same.** -/
theorem graph_eq {kept kept' : List (Key × Decl)} (h : List.Forall₂ SamePair kept kept') :
    graph kept = graph kept' := by
  have hfold : ∀ start : Graph Key,
      kept.foldl (fun graph pair => addDecl graph pair.1 pair.2) start =
        kept'.foldl (fun graph pair => addDecl graph pair.1 pair.2) start := by
    induction h with
    | nil => exact fun _ => rfl
    | @cons pair pair' kept kept' hpair _ ih =>
      intro start
      obtain ⟨key, decl⟩ := pair
      obtain ⟨key', decl'⟩ := pair'
      obtain ⟨rfl, hdecl⟩ : key = key' ∧ decl.Reordered decl' := hpair
      -- dependencies are listed by their keys, whatever the order in which they are mentioned
      have hadd : addDecl start key decl = addDecl start key decl' := by
        rw [addDecl, addDecl, hdecl.toList_dependencies_eq]
      rw [List.foldl_cons, List.foldl_cons, ih]
      exact congrArg (fun start => kept'.foldl _ start) hadd
  exact hfold .empty

theorem groups_eq (h : List.Forall₂ Decl.Reordered decls decls') :
    groups (sift ∅ decls).1 = groups (sift ∅ decls').1 := by
  rw [groups, groups, graph_eq (sift_reordered h).1]

theorem rel_first? (h : List.Forall₂ Decl.Reordered decls decls') (key : Key) :
    Option.Rel Decl.Reordered (first? decls key) (first? decls' key) := by
  induction h with
  | nil => exact .none
  | cons hdecl _ ih =>
    rw [first?_cons, first?_cons, hdecl.key?_eq]
    split
    · exact .some hdecl
    · exact ih

/-- What a group leaves is the same up to reordering. -/
theorem left_reordered (h : List.Forall₂ Decl.Reordered decls decls') (group : List Key) :
    List.Forall₂ Decl.Reordered (left decls group) (left decls' group) := by
  rcases group with _ | ⟨key, _ | ⟨other, keys⟩⟩
  · exact .nil
  · have hfirst := rel_first? h key
    rw [left, left]
    generalize first? decls key = decl? at hfirst
    generalize first? decls' key = decl?' at hfirst
    cases hfirst with
    | none => exact .nil
    | some hdecl => exact .cons hdecl .nil
  · exact .nil

/-- **The same is emitted, up to reordering**, in the same order. -/
theorem emit_reordered (h : List.Forall₂ Decl.Reordered decls decls') :
    List.Forall₂ Decl.Reordered (emit decls).decls (emit decls').decls := by
  rw [decls_emit, decls_emit, groups_eq h]
  induction groups (sift ∅ decls').1 with
  | nil => exact .nil
  | cons group groups ih => exact List.rel_append (left_reordered h group) ih

/-- **The same cycles are reported.** -/
theorem cycles_eq (h : List.Forall₂ Decl.Reordered decls decls') :
    cycles decls = cycles decls' := by
  rw [cycles, cycles, groups_eq h]

/-- **The same later declarations are reported.** -/
theorem reused_eq (h : List.Forall₂ Decl.Reordered decls decls') :
    (reused decls).map reusedDiagnostic = (reused decls').map reusedDiagnostic := by
  rw [← diagnostics_sift, ← diagnostics_sift, (sift_reordered h).2]

end Bindery.Emission
