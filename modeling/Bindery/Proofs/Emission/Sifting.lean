import Bindery.Emission
import Bindery.Proofs.Decl.Dependencies
import Mathlib.Data.List.Infix

/-!
# Which declarations are kept

Of the declarations that share a key only the first counts. `Bindery.Emission.first?` is
that declaration, read off the list as a whole, and `Bindery.Emission.reused` are the
keys of all later ones, in order. Sifting keeps the former, with a key each
(`Bindery.Emission.mem_sift`), and reports the latter
(`Bindery.Emission.diagnostics_sift`).
-/

namespace Bindery

open Decl (Key)

/-! ### Reports put together -/

@[simp] theorem Report.diagnostics_append (first second : Report) :
    (first ++ second).diagnostics = first.diagnostics ++ second.diagnostics := rfl

theorem Report.diagnostics_concat (reports : List Report) :
    (concat reports).diagnostics = reports.flatMap Report.diagnostics := by
  induction reports with
  | nil => rfl
  | cons report reports ih => exact congrArg (report.diagnostics ++ ·) ih

namespace Emission

/-! ### The first declaration of a key, and the later ones -/

/-- **The first declaration of a key.** -/
def first? (decls : List Decl) (key : Key) : Option Decl :=
  decls.find? fun decl => decl.key? = some key

/-- The key of a declaration, if one of those before it has the same. -/
def reusedKey? : Decl × List Decl → Option Key
  | (decl, before) => decl.key?.filter fun key => before.any fun other => other.key? = some key

/-- **The keys of the later declarations**: of those with the key of a declaration before
them, in order. -/
def reused (decls : List Decl) : List Key :=
  (decls.zip decls.inits).filterMap reusedKey?

/-- What is reported of a later declaration. -/
def reusedDiagnostic (key : Key) : Diagnostic :=
  ⟨.skipped, "skipping duplicate declaration of `" ++ key.name ++ "`"⟩

theorem key?_of_first? {decls : List Decl} {key : Key} {decl : Decl}
    (h : first? decls key = some decl) : decl.key? = some key := by
  simpa using List.find?_some h

/-! ### Sifting -/

variable {seen : Std.TreeSet Key} {decl : Decl} {decls : List Decl} {key : Key}

theorem sift_cons_none (h : decl.key? = none) :
    (sift seen (decl :: decls)).1 = (sift seen decls).1 ∧
      (sift seen (decl :: decls)).2.diagnostics = (sift seen decls).2.diagnostics := by
  rw [sift]
  split
  · exact ⟨rfl, rfl⟩
  · next heq => simp [h] at heq

theorem sift_cons_seen (h : decl.key? = some key) (hseen : key ∈ seen) :
    (sift seen (decl :: decls)).1 = (sift seen decls).1 ∧
      (sift seen (decl :: decls)).2.diagnostics =
        reusedDiagnostic key :: (sift seen decls).2.diagnostics := by
  rw [sift]
  split
  · next heq => simp [h] at heq
  · next other heq =>
    obtain rfl : key = other := Option.some.inj (h.symm.trans heq)
    rw [if_pos (Std.TreeSet.contains_iff_mem.mpr hseen)]
    exact ⟨rfl, rfl⟩

theorem sift_cons_new (h : decl.key? = some key) (hseen : key ∉ seen) :
    (sift seen (decl :: decls)).1 = (key, decl) :: (sift (seen.insert key) decls).1 ∧
      (sift seen (decl :: decls)).2.diagnostics =
        (sift (seen.insert key) decls).2.diagnostics := by
  rw [sift]
  split
  · next heq => simp [h] at heq
  · next other heq =>
    obtain rfl : key = other := Option.some.inj (h.symm.trans heq)
    rw [if_neg fun hmem => hseen (Std.TreeSet.contains_iff_mem.mp hmem)]
    exact ⟨rfl, rfl⟩

theorem first?_cons : first? (decl :: decls) key =
    if decl.key? = some key then some decl else first? decls key := by
  rw [first?, List.find?_cons]
  split <;> simp_all [first?]

theorem mem_insert_iff {other : Key} : key ∈ seen.insert other ↔ other = key ∨ key ∈ seen := by
  rw [Std.TreeSet.mem_insert, Decl.Key.compare_eq_iff]

/-- What is kept are the first declarations of the keys that were not seen. -/
theorem mem_sift_iff : (key, decl) ∈ (sift seen decls).1 ↔
    key ∉ seen ∧ first? decls key = some decl := by
  induction decls generalizing seen with
  | nil => simp [sift, first?]
  | cons head decls ih =>
    rw [first?_cons]
    rcases hhead : head.key? with _ | other
    · rw [(sift_cons_none hhead).1, ih, if_neg (by simp)]
    · by_cases hseen : other ∈ seen
      · rw [(sift_cons_seen hhead hseen).1, ih]
        by_cases heq : other = key
        · subst heq
          simp [hseen]
        · simp [heq]
      · rw [(sift_cons_new hhead hseen).1, List.mem_cons, ih, mem_insert_iff, Prod.mk.injEq]
        by_cases heq : other = key
        · subst heq
          simp [hseen, eq_comm]
        · simp [heq, Ne.symm heq]

/-- No key is kept twice. -/
theorem nodup_keys_sift : ((sift seen decls).1.map Prod.fst).Nodup := by
  induction decls generalizing seen with
  | nil => exact List.nodup_nil
  | cons head decls ih =>
    rcases hhead : head.key? with _ | other
    · rw [(sift_cons_none hhead).1]
      exact ih
    · by_cases hseen : other ∈ seen
      · rw [(sift_cons_seen hhead hseen).1]
        exact ih
      · rw [(sift_cons_new hhead hseen).1, List.map_cons, List.nodup_cons]
        refine ⟨fun hmem => ?_, ih⟩
        obtain ⟨⟨key, decl⟩, hpair, rfl⟩ := List.mem_map.mp hmem
        exact (mem_sift_iff.mp hpair).1 (mem_insert_iff.mpr (Or.inl rfl))

/-- **What is kept** are the first declarations of all keys. -/
theorem mem_sift : (key, decl) ∈ (sift ∅ decls).1 ↔ first? decls key = some decl := by
  rw [mem_sift_iff]
  exact and_iff_right Std.TreeSet.not_mem_emptyc

/-! ### What sifting reports -/

theorem reusedKey?_of_none {before : List Decl} (h : decl.key? = none) :
    reusedKey? (decl, before) = none := by
  rw [reusedKey?, h, Option.filter_none]

theorem reusedKey?_of_some {before : List Decl} (h : decl.key? = some key) :
    reusedKey? (decl, before) =
      if before.any fun other => other.key? = some key then some key else none := by
  rw [reusedKey?, h, Option.filter_some]

/-- Sifting on from some declarations, whose keys are those that were seen. -/
theorem diagnostics_sift_append {before : List Decl}
    (hseen : ∀ key, key ∈ seen ↔ before.any fun other => other.key? = some key) :
    (sift seen decls).2.diagnostics =
      ((decls.zip (decls.inits.map (before ++ ·))).filterMap reusedKey?).map reusedDiagnostic := by
  induction decls generalizing seen before with
  | nil => rfl
  | cons head decls ih =>
    -- what stands before each later declaration is the same list with the head at its end
    have hinits : (head :: decls).inits.map (before ++ ·) =
        before :: decls.inits.map (before ++ [head] ++ ·) := by
      simp [Function.comp_def]
    rw [hinits, List.zip_cons_cons, List.filterMap_cons]
    rcases hhead : head.key? with _ | key
    · rw [(sift_cons_none hhead).2, reusedKey?_of_none hhead]
      refine ih fun key => ?_
      simp [hseen, hhead]
    · rw [reusedKey?_of_some hhead]
      by_cases hmem : key ∈ seen
      · rw [(sift_cons_seen hhead hmem).2, if_pos ((hseen key).mp hmem), List.map_cons]
        refine congrArg _ (ih fun name => ?_)
        by_cases heq : key = name
        · subst heq
          simp [hmem, hhead]
        · simp [hseen, hhead, heq]
      · rw [(sift_cons_new hhead hmem).2, if_neg fun hany => hmem ((hseen key).mpr hany)]
        refine ih fun name => ?_
        simp [hseen, hhead, or_comm]

/-- **What sifting reports** is one diagnostic for each later declaration, in order. -/
theorem diagnostics_sift :
    (sift ∅ decls).2.diagnostics = (reused decls).map reusedDiagnostic := by
  have hempty : ∀ key : Key, key ∈ (∅ : Std.TreeSet Key) ↔
      ([] : List Decl).any (fun other => other.key? = some key) := fun key => by simp
  rw [diagnostics_sift_append hempty]
  simp [reused]

end Emission

end Bindery
