import Bindery.Diagnostic
import Mathlib.Data.List.Perm.Basic

/-!
# Comparing what is told

Where a build leaves something out that another one has, some diagnostics are **taken out** of
what is told (`Bindery.TakeOut`), and the others stay in order. A `Bindery.Telling` is a way to
compare what is told in this manner, with or without regard to the order.
-/

namespace Bindery

/-! ### Taking out -/

/-- **What is left of a list** when some items are taken out of it: the others, in order. -/
structure TakeOut {α : Type} (items taken rest : List α) : Prop where
  sublist : rest.Sublist items
  perm : items.Perm (taken ++ rest)

section

variable {α : Type} {items taken rest items' taken' rest' : List α}

theorem perm_append_of_perms (h : items.Perm (taken ++ rest)) (h' : items'.Perm (taken' ++ rest')) :
    (items ++ items').Perm (taken ++ taken' ++ (rest ++ rest')) := by
  -- what is taken from the second list changes places with the rest of the first
  refine (h.append h').trans ?_
  rw [List.append_assoc, List.append_assoc, ← List.append_assoc rest, ← List.append_assoc taken']
  exact (List.perm_append_comm.append_right rest').append_left taken

namespace TakeOut

/-- Nothing is taken out. -/
theorem none (items : List α) : TakeOut items [] items := ⟨.refl _, .refl _⟩

/-- Everything is taken out. -/
theorem all (items : List α) : TakeOut items items [] :=
  ⟨List.nil_sublist _, .of_eq (List.append_nil _).symm⟩

theorem append (h : TakeOut items taken rest) (h' : TakeOut items' taken' rest') :
    TakeOut (items ++ items') (taken ++ taken') (rest ++ rest') :=
  ⟨h.sublist.append h'.sublist, perm_append_of_perms h.perm h'.perm⟩

theorem of_perm (h : TakeOut items taken rest) (hperm : taken.Perm taken') :
    TakeOut items taken' rest :=
  ⟨h.sublist, h.perm.trans (hperm.append_right rest)⟩

end TakeOut

end

/-! ### Ways to compare -/

/-- **A way to compare what is told** in two builds, given what is taken out in the second. What
is told in parts can be compared part by part. -/
structure Telling where
  tells : List Diagnostic → List Diagnostic → List Diagnostic → Prop
  none : ∀ told, tells told [] told
  all : ∀ told, tells told told []
  append : ∀ {told taken rest told' taken' rest'}, tells told taken rest →
    tells told' taken' rest' → tells (told ++ told') (taken ++ taken') (rest ++ rest')
  of_perm : ∀ {told taken taken' rest}, tells told taken rest → taken.Perm taken' →
    tells told taken' rest

namespace Telling

/-- In order. -/
def inOrder : Telling := ⟨TakeOut, TakeOut.none, TakeOut.all, TakeOut.append, TakeOut.of_perm⟩

/-- Up to order. -/
def inAnyOrder : Telling where
  tells told taken rest := told.Perm (taken ++ rest)
  none told := .refl told
  all told := .of_eq (List.append_nil told).symm
  append := perm_append_of_perms
  of_perm h hperm := h.trans (hperm.append_right _)

/-- What is told of several things is compared one by one. -/
theorem flatMap (telling : Telling) {α β : Type} {rel : α → β → Prop}
    {told taken : α → List Diagnostic} {rest : β → List Diagnostic}
    (htells : ∀ a b, rel a b → telling.tells (told a) (taken a) (rest b))
    {items : List α} {items' : List β} (h : List.Forall₂ rel items items') :
    telling.tells (items.flatMap told) (items.flatMap taken) (items'.flatMap rest) := by
  induction h with
  | nil => exact telling.none []
  | cons hrel _ ih => exact telling.append (htells _ _ hrel) ih

end Telling

end Bindery
