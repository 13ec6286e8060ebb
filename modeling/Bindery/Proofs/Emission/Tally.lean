import Bindery.Proofs.Emission.Order
import Mathlib.Algebra.Ring.Nat

/-!
# How many declarations are emitted

A declaration with a key has one of three fates: it is emitted, its key lies on a cycle, or its
key is that of an earlier one. So the declarations that are emitted, the keys on cycles and the
later declarations are as many as all declarations together (`Bindery.Emission.length_emit`).
-/

namespace Bindery.Emission

open Decl (Key)

variable {decls : List Decl} {key : Key} {seen : Std.TreeSet Key}

/-- Sifting keeps a declaration, or reports it. -/
theorem length_sift (hkeys : ∀ decl ∈ decls, decl.key? ≠ none) :
    (sift seen decls).1.length + (sift seen decls).2.diagnostics.length = decls.length := by
  induction decls generalizing seen with
  | nil => rfl
  | cons decl decls ih =>
    have hrest : ∀ other ∈ decls, other.key? ≠ none := fun other hother =>
      hkeys other (List.mem_cons_of_mem _ hother)
    obtain ⟨key, hkey⟩ := Option.ne_none_iff_exists'.mp (hkeys decl List.mem_cons_self)
    by_cases hseen : key ∈ seen
    · rw [(sift_cons_seen hkey hseen).1, (sift_cons_seen hkey hseen).2, List.length_cons,
        List.length_cons, ← Nat.add_assoc, ih hrest]
    · rw [(sift_cons_new hkey hseen).1, (sift_cons_new hkey hseen).2, List.length_cons,
        List.length_cons, Nat.add_right_comm, ih hrest]

theorem mem_keys_sift : key ∈ (sift ∅ decls).1.map Prod.fst ↔
    ∃ decl, first? decls key = some decl := by
  rw [List.mem_map]
  constructor
  · rintro ⟨⟨key, decl⟩, hpair, rfl⟩
    exact ⟨decl, mem_sift.mp hpair⟩
  · rintro ⟨decl, hfirst⟩
    exact ⟨(key, decl), mem_sift.mpr hfirst, rfl⟩

theorem mem_map_key?_emit : some key ∈ (emit decls).decls.map Decl.key? ↔
    (∃ decl, first? decls key = some decl) ∧ ¬ OnCycle decls key := by
  rw [List.mem_map]
  constructor
  · rintro ⟨decl, hdecl, hkey⟩
    obtain ⟨other, hfirst, hcycle⟩ := mem_emit_iff.mp hdecl
    obtain rfl := Option.some.inj ((key?_of_first? hfirst).symm.trans hkey)
    exact ⟨⟨decl, hfirst⟩, hcycle⟩
  · rintro ⟨⟨decl, hfirst⟩, hcycle⟩
    exact ⟨decl, mem_emit_iff.mpr ⟨key, hfirst, hcycle⟩, key?_of_first? hfirst⟩

theorem mem_flatten_cycles : key ∈ (cycles decls).flatten ↔ OnCycle decls key :=
  List.mem_flatten.trans exists_mem_cycles_iff

/-- **The keys that are kept** are those that are emitted and those that lie on cycles. -/
theorem perm_keys_sift (decls : List Decl) : (((sift ∅ decls).1.map Prod.fst).map some).Perm
    ((emit decls).decls.map Decl.key? ++ (cycles decls).flatten.map some) := by
  -- no key comes twice on either side, so it is enough to know which keys there are
  have hsome : Function.Injective (some : Key → Option Key) := fun _ _ => Option.some.inj
  refine (List.perm_ext_iff_of_nodup (nodup_keys_sift.map hsome) ?_).mpr fun key? => ?_
  · refine List.nodup_append.mpr ⟨?_, nodup_flatten_cycles.map hsome, ?_⟩
    · exact List.pairwise_map.mpr (pairwise_emit.imp And.left)
    · rintro key? hemitted _ hcycle rfl
      obtain ⟨key, hmem, rfl⟩ := List.mem_map.mp hcycle
      exact (mem_map_key?_emit.mp hemitted).2 (mem_flatten_cycles.mp hmem)
  · cases key? with
    | none =>
      refine iff_of_false (by simp) fun hnone => ?_
      rcases List.mem_append.mp hnone with hnone | hnone
      · obtain ⟨decl, hdecl, hkey⟩ := List.mem_map.mp hnone
        obtain ⟨key, hfirst, -⟩ := mem_emit_iff.mp hdecl
        exact nomatch hkey.symm.trans (key?_of_first? hfirst)
      · simp at hnone
    | some key =>
      rw [List.mem_append, mem_map_key?_emit, List.mem_map_of_injective hsome,
        List.mem_map_of_injective hsome, mem_flatten_cycles, mem_keys_sift]
      constructor
      · intro hfirst
        by_cases hcycle : OnCycle decls key
        · exact Or.inr hcycle
        · exact Or.inl ⟨hfirst, hcycle⟩
      · rintro (⟨hfirst, -⟩ | hcycle)
        · exact hfirst
        · obtain ⟨type, hfirst, -⟩ := hcycle.exists_type
          exact ⟨_, hfirst⟩

/-- **Three fates**: a declaration is emitted, lies on a cycle, or comes later than another with
its key. -/
theorem length_emit (hkeys : ∀ decl ∈ decls, decl.key? ≠ none) :
    (emit decls).decls.length + ((cycles decls).map List.length).sum + (reused decls).length =
      decls.length := by
  have hkept := (perm_keys_sift decls).length_eq
  have hsift : _ + (sift ∅ decls).2.diagnostics.length = decls.length := length_sift hkeys
  rw [diagnostics_sift, List.length_map] at hsift
  rw [List.length_append, List.length_map, List.length_map, List.length_map, List.length_map,
    List.length_flatten] at hkept
  omega

end Bindery.Emission
