import Bindery.Assembly.Resolution
import Mathlib.Data.Nat.Notation

/-!
# What an attempt runs into

Three things are of interest about an attempt, whatever its outcome: which symbols it meets,
in which ways it can fail, and what its value has to do with the symbols it met.
`Bindery.Assembly.Attempt.Runs` says all three at once, so that attempts are put together
(`Bindery.Assembly.Attempt.Runs.bind`) and recovered from
(`Bindery.Assembly.Attempt.Runs.recover`) without looking into them again.

The value is spoken of with respect to symbols that are **seen**. What holds as soon as the
symbols that an attempt met are seen also holds after it was followed by another, which may
meet more of them.
-/

namespace Bindery

/-- A failure is about a type without a rendering. -/
def Failure.IsUnrepresentable (failure : Failure) : Prop := ∃ type, failure = .unrepresentable type

namespace Assembly

variable {n : ℕ} {α β : Type} {fit : Fin n → Prop} {fails : Failure → Prop}
  {post : (Fin n → Prop) → α → Prop}

namespace Attempt

/-- **What an attempt runs into**: it only meets symbols that `fit` and only fails in ways that
`fails` allows for. Its value is as `post` says, as soon as the symbols it met are seen. -/
structure Runs (fit : Fin n → Prop) (fails : Failure → Prop) (post : (Fin n → Prop) → α → Prop)
    (attempt : Attempt n α) : Prop where
  met : ∀ ref ∈ attempt.notes.met, fit ref
  failed : ∀ failure, attempt.outcome = .error failure → fails failure
  value : ∀ value, attempt.outcome = .ok value → ∀ seen : Fin n → Prop,
    (∀ ref ∈ attempt.notes.met, seen ref) → post seen value

/-- No failure at all. -/
abbrev never : Failure → Prop := fun _ => False

namespace Runs

theorem done {value : α} (h : ∀ seen, post seen value) :
    (pure value : Attempt n α).Runs fit fails post where
  met := fun _ hmem => absurd hmem List.not_mem_nil
  failed := fun _ heq => nomatch heq
  value := by
    rintro _ ⟨⟩ seen -
    exact h seen

theorem fail {failure : Failure} (h : fails failure) :
    (Attempt.fail failure : Attempt n α).Runs fit fails post where
  met := fun _ hmem => absurd hmem List.not_mem_nil
  failed := by
    rintro _ ⟨⟩
    exact h
  value := fun _ heq => nomatch heq

theorem tell (report : Report) :
    (Attempt.tell report : Attempt n Unit).Runs fit fails fun _ _ => True where
  met := fun _ hmem => absurd hmem List.not_mem_nil
  failed := fun _ heq => nomatch heq
  value := fun _ _ _ _ => trivial

theorem meet {ref : Fin n} (h : fit ref) :
    (Attempt.meet ref).Runs fit fails fun seen _ => seen ref where
  met := by
    intro other hmem
    rwa [List.mem_singleton.mp hmem]
  failed := fun _ heq => nomatch heq
  value := fun _ _ _ hseen => hseen ref List.mem_cons_self

/-- **One attempt after the other**. -/
theorem bind {attempt : Attempt n α} {next : α → Attempt n β}
    {post' : (Fin n → Prop) → β → Prop} (h : attempt.Runs fit fails post)
    (hnext : ∀ value, (next value).Runs fit fails fun seen result =>
      post seen value → post' seen result) :
    (attempt >>= next).Runs fit fails post' := by
  change (attempt.andThen next).Runs fit fails post'
  rw [andThen]
  rcases hattempt : attempt.outcome with failure | value
  · refine ⟨h.met, ?_, fun _ heq => nomatch heq⟩
    rintro _ ⟨⟩
    exact h.failed failure hattempt
  · refine ⟨fun ref hmem => ?_, (hnext value).failed, fun result hresult seen hseen => ?_⟩
    · rcases List.mem_append.mp hmem with hmem | hmem
      · exact h.met ref hmem
      · exact (hnext value).met ref hmem
    · -- all that was seen by the two includes what the first one met
      have hfirst := h.value value hattempt seen fun ref hmem =>
        hseen ref (List.mem_append_left _ hmem)
      exact (hnext value).value result hresult seen
        (fun ref hmem => hseen ref (List.mem_append_right _ hmem)) hfirst

/-- An attempt that is known to run into less. -/
theorem mono {attempt : Attempt n α} {fails' : Failure → Prop}
    {post' : (Fin n → Prop) → α → Prop} (h : attempt.Runs fit fails post)
    (hfails : ∀ failure, fails failure → fails' failure)
    (hpost : ∀ seen value, post seen value → post' seen value) :
    attempt.Runs fit fails' post' where
  met := h.met
  failed := fun failure heq => hfails failure (h.failed failure heq)
  value := fun value heq seen hseen => hpost seen value (h.value value heq seen hseen)

/-- **Who is recovered from** a type without a rendering does not fail. -/
theorem recover {attempt : Attempt n α} (what : String)
    (h : attempt.Runs fit Failure.IsUnrepresentable post) :
    (attempt.recover what).Runs fit fails fun seen value? => ∀ value ∈ value?, post seen value := by
  rw [Attempt.recover]
  split
  · next value heq =>
    refine ⟨h.met, (fun _ herror => nomatch herror), ?_⟩
    rintro _ ⟨⟩ seen hseen value ⟨⟩
    exact h.value value heq seen hseen
  · next type heq =>
    refine ⟨fun ref hmem => ?_, (fun _ herror => nomatch herror), ?_⟩
    · exact h.met ref ((List.append_nil attempt.notes.met) ▸ hmem)
    · rintro _ ⟨⟩ seen - value ⟨⟩
  · next failure hnot heq =>
    obtain ⟨type, rfl⟩ := h.failed failure heq
    exact absurd rfl (hnot type)

/-- A chain of attempts, each of which keeps what it starts from. -/
theorem foldlM {γ : Type} {step : α → γ → Attempt n α} {items : List γ}
    (hstep : ∀ value, ∀ item ∈ items, (step value item).Runs fit fails fun seen result =>
      post seen value → post seen result) (value : α) :
    (items.foldlM step value).Runs fit fails fun seen result =>
      post seen value → post seen result := by
  induction items generalizing value with
  | nil =>
    rw [List.foldlM_nil]
    exact done fun _ h => h
  | cons item items ih =>
    rw [List.foldlM_cons]
    refine (hstep value item List.mem_cons_self).bind fun next => ?_
    refine (ih (fun value item hmem => hstep value item (List.mem_cons_of_mem _ hmem)) next).mono
      (fun _ h => h) ?_
    exact fun seen result hrest hfirst hpost => hrest (hfirst hpost)

end Runs

/-- What never fails has a value. -/
theorem Runs.exists_value {attempt : Attempt n α} (h : attempt.Runs fit never post) :
    ∃ value, attempt.outcome = .ok value := by
  rcases hattempt : attempt.outcome with failure | value
  · exact (h.failed failure hattempt).elim
  · exact ⟨value, rfl⟩

end Attempt

/-- **Overloads, one by one**, never fail, and those that are left are as each of them is. -/
theorem runs_overloads {kind owner : String} {build : ℕ → Symbol.Signature → Attempt n α}
    (hbuild : ∀ number signature,
      (build number signature).Runs fit Failure.IsUnrepresentable post)
    (number : ℕ) (signatures : List Symbol.Signature) :
    (overloads kind owner build number signatures).Runs fit fails fun seen values =>
      ∀ value ∈ values, post seen value := by
  induction signatures generalizing number with
  | nil =>
    rw [overloads]
    exact .done fun _ _ hmem => absurd hmem List.not_mem_nil
  | cons signature signatures ih =>
    rw [overloads]
    refine ((hbuild number signature).recover _).bind fun built => (ih (number + 1)).bind
      fun rest => .done fun seen hrest hbuilt value hmem => ?_
    rcases List.mem_append.mp hmem with hmem | hmem
    · exact hbuilt value (Option.mem_toList.mp hmem)
    · exact hrest value hmem

end Assembly

end Bindery
