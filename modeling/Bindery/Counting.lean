/-!
# Counting what is left

Several searches end because each step uses up one of finitely many things that are
left: a node that was not entered, a name that was not met. What is left is a total over
all of them, and `Bindery.total_ofFn_add_le` says that the total drops when one of its
terms does.
-/

namespace Bindery

/-- The sum of some numbers. -/
def total : List Nat → Nat
  | [] => 0
  | n :: rest => n + total rest

@[simp] theorem total_nil : total [] = 0 := rfl

@[simp] theorem total_cons (n : Nat) (rest : List Nat) : total (n :: rest) = n + total rest := rfl

theorem total_ofFn_le {n : Nat} {f g : Fin n → Nat} (hle : ∀ i, f i ≤ g i) :
    total (List.ofFn f) ≤ total (List.ofFn g) := by
  induction n with
  | zero => simp
  | succ n ih =>
    rw [List.ofFn_succ, List.ofFn_succ, total_cons, total_cons]
    exact Nat.add_le_add (hle 0) (ih fun i => hle i.succ)

/-- A total drops by at least as much as one of its terms, if no term grows. -/
theorem total_ofFn_add_le {n : Nat} {f g : Fin n → Nat} {i : Fin n} {k : Nat}
    (hle : ∀ j, f j ≤ g j) (hi : f i + k ≤ g i) :
    total (List.ofFn f) + k ≤ total (List.ofFn g) := by
  induction n with
  | zero => exact i.elim0
  | succ n ih =>
    rw [List.ofFn_succ, List.ofFn_succ, total_cons, total_cons]
    refine Fin.cases (fun hi => ?_) (fun i hi => ?_) i hi
    · have := total_ofFn_le fun j : Fin n => hle j.succ
      omega
    · have := ih (fun j => hle j.succ) hi
      have := hle 0
      omega

end Bindery
