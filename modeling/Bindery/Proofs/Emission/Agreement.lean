import Bindery.Proofs.Emission.Order

/-!
# Emission up to the order of declarations

Two lists of declarations **agree** if the first declaration of each key is the same in both
(`Bindery.Emission.Agree`). The needs between keys are then the same, so the same declarations are
emitted (`Bindery.Emission.Agree.mem_emit_iff`) and the same cycles are reported
(`Bindery.Emission.Agree.mem_cycles_iff`), each in some order.

Lists of the same declarations agree if keys tell them apart
(`Bindery.Emission.Agree.of_mem_iff`).
-/

namespace Bindery.Emission

open Decl (Key)

variable {decls decls' : List Decl} {key : Key} {decl : Decl} {keys others : List Key}

/-! ### Cycles that share a key -/

/-- **Cycles that share a key are the same.** -/
theorem IsCycle.eq (h : IsCycle decls keys) (h' : IsCycle decls others) (hkey : key ∈ keys)
    (hother : key ∈ others) : keys = others := by
  have hincreasing : keys.Pairwise fun a b => a.name < b.name := List.pairwise_map.mp h.increasing
  have hincreasing' : others.Pairwise fun a b => a.name < b.name :=
    List.pairwise_map.mp h'.increasing
  have hnodup : ∀ {keys : List Key}, keys.Pairwise (fun a b => a.name < b.name) → keys.Nodup :=
    fun hpairwise => hpairwise.imp fun hlt heq => hlt.ne (congrArg Key.name heq)
  refine List.Perm.eq_of_pairwise (fun a b _ _ hab hba => absurd hba hab.asymm) hincreasing
    hincreasing' ((List.perm_ext_iff_of_nodup (hnodup hincreasing) (hnodup hincreasing')).mpr ?_)
  intro other
  rw [h.mem_iff key hkey, h'.mem_iff key hother]

/-! ### Lists that agree -/

/-- **Two lists of declarations agree**: the first declaration of each key is the same. -/
def Agree (decls decls' : List Decl) : Prop := ∀ key, first? decls key = first? decls' key

namespace Agree

theorem symm (h : Agree decls decls') : Agree decls' decls := fun key => (h key).symm

variable (h : Agree decls decls')

include h

theorem needs_eq : Needs decls = Needs decls' := by
  funext key other
  rw [Needs, Needs, h key]

theorem needEachOther_iff (key other : Key) :
    NeedEachOther decls key other ↔ NeedEachOther decls' key other := by
  rw [NeedEachOther, NeedEachOther, h.needs_eq]

theorem onCycle_iff (key : Key) : OnCycle decls key ↔ OnCycle decls' key :=
  exists_congr fun other => and_congr_right fun _ => h.needEachOther_iff key other

/-- **The same declarations are emitted.** -/
theorem mem_emit_iff : decl ∈ (emit decls).decls ↔ decl ∈ (emit decls').decls := by
  rw [Emission.mem_emit_iff, Emission.mem_emit_iff]
  simp only [h _, h.onCycle_iff]

theorem isCycle (hkeys : IsCycle decls keys) : IsCycle decls' keys where
  two_le := hkeys.two_le
  increasing := hkeys.increasing
  mem_iff key hkey other := (hkeys.mem_iff key hkey other).trans (h.needEachOther_iff key other)
  declared key hkey := h key ▸ hkeys.declared key hkey

theorem mem_cycles (hkeys : keys ∈ cycles decls) : keys ∈ cycles decls' := by
  have hcycle := h.isCycle (isCycle_of_mem_cycles hkeys)
  obtain ⟨key, hkey⟩ := List.exists_mem_of_length_pos
    (lt_of_lt_of_le Nat.zero_lt_two hcycle.two_le)
  -- the cycle of this key in the other list is the same
  obtain ⟨others, hothers, hother⟩ := exists_mem_cycles_iff.mpr
    ((h.onCycle_iff key).mp (exists_mem_cycles_iff.mp ⟨keys, hkeys, hkey⟩))
  rwa [hcycle.eq (isCycle_of_mem_cycles hothers) hkey hother]

/-- **The same cycles are reported.** -/
theorem mem_cycles_iff : keys ∈ cycles decls ↔ keys ∈ cycles decls' :=
  ⟨h.mem_cycles, h.symm.mem_cycles⟩

end Agree

/-! ### Keys that tell declarations apart -/

/-- **Keys tell declarations apart**: no two of them have the same key. -/
def KeysDiffer (decls : List Decl) : Prop :=
  ∀ decl ∈ decls, ∀ other ∈ decls, ∀ key, decl.key? = some key → other.key? = some key →
    decl = other

theorem KeysDiffer.first?_eq_some_iff (h : KeysDiffer decls) :
    first? decls key = some decl ↔ decl ∈ decls ∧ decl.key? = some key := by
  constructor
  · intro hfirst
    exact ⟨List.mem_of_find?_eq_some hfirst, key?_of_first? hfirst⟩
  · rintro ⟨hdecl, hkey⟩
    have hsome : (first? decls key).isSome :=
      List.find?_isSome.mpr ⟨decl, hdecl, decide_eq_true hkey⟩
    obtain ⟨other, hother⟩ := Option.isSome_iff_exists.mp hsome
    rw [hother, h decl hdecl other (List.mem_of_find?_eq_some hother) key hkey
      (key?_of_first? hother)]

/-- **Lists of the same declarations agree** if keys tell them apart. -/
theorem Agree.of_mem_iff (h : KeysDiffer decls)
    (hmem : ∀ decl, decl ∈ decls ↔ decl ∈ decls') : Agree decls decls' := by
  have h' : KeysDiffer decls' := fun decl hdecl other hother =>
    h decl ((hmem decl).mpr hdecl) other ((hmem other).mpr hother)
  intro key
  refine Option.ext fun decl => ?_
  rw [h.first?_eq_some_iff, h'.first?_eq_some_iff, hmem]

end Bindery.Emission
