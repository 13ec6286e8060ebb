import Bindery.Ident
import Mathlib.Logic.Relation

/-!
# Runs of underscores

To collapse a word is to cut each run of underscores in it down to a single one. What gets lost in
this way can be said without cutting anything. Words **differ only in their runs** if one of them
comes of the other by making runs longer or shorter, an underscore at a time, but never so short
that a run is gone (`Bindery.Ident.SameRuns`). Such words collapse alike, and no others do
(`Bindery.Ident.collapse_eq_collapse_iff`). The word that they collapse to is the one among them in
which no two underscores stand in a row (`Bindery.Ident.collapse_eq_iff`).
-/

namespace Bindery.Ident

variable {word longer short rest a b : List Char} {c : Char}

/-! ### Two underscores in a row -/

theorem double_infix_cons_iff : ['_', '_'] <:+: c :: rest ↔
    c = '_' ∧ rest.head? = some '_' ∨ ['_', '_'] <:+: rest := by
  rw [List.infix_cons_iff, List.cons_prefix_cons]
  cases rest with
  | nil => simp
  | cons d rest => simp [List.cons_prefix_cons, eq_comm]

theorem head?_collapse (word : List Char) : (collapse word).head? = word.head? := by
  fun_induction collapse word with
  | case1 => rfl
  | case2 c rest h ih => rw [ih, h.2, h.1]; rfl
  | case3 => rfl

/-- **No two underscores in a row are left.** -/
theorem not_double_infix_collapse (word : List Char) : ¬ ['_', '_'] <:+: collapse word := by
  fun_induction collapse word with
  | case1 => simp
  | case2 _ _ _ ih => exact ih
  | case3 c rest h ih =>
    rw [double_infix_cons_iff, head?_collapse]
    exact fun hor => hor.elim h ih

/-- Where there are no two in a row, nothing collapses. -/
theorem collapse_eq_self (h : ¬ ['_', '_'] <:+: word) : collapse word = word := by
  fun_induction collapse word with
  | case1 => rfl
  | case2 c rest hboth _ => exact absurd (double_infix_cons_iff.mpr (Or.inl hboth)) h
  | case3 c rest _ ih => rw [ih fun hrest => h (double_infix_cons_iff.mpr (Or.inr hrest))]

/-! ### Words that differ in their runs -/

/-- **A run gets longer**, by one underscore. -/
inductive Longer : List Char → List Char → Prop
  /-- It is the run that the word begins with. -/
  | here (rest : List Char) : Longer ('_' :: rest) ('_' :: '_' :: rest)
  /-- It is a later one. -/
  | later (c : Char) {word longer : List Char} :
      Longer word longer → Longer (c :: word) (c :: longer)

/-- **Two words differ only in their runs**, if at all: runs of one get longer or shorter, and this
makes the other. -/
def SameRuns : List Char → List Char → Prop := Relation.EqvGen Longer

/-- What a word collapses to depends on what the rest of it collapses to. -/
theorem collapse_cons (c : Char) (rest : List Char) : collapse (c :: rest) =
    if c = '_' ∧ (collapse rest).head? = some '_' then collapse rest else c :: collapse rest := by
  rw [head?_collapse, collapse]

/-- **How long a run is does not matter.** -/
theorem Longer.collapse_eq (h : Longer word longer) : collapse word = collapse longer := by
  induction h with
  | here rest => rw [collapse_cons '_' ('_' :: rest), if_pos ⟨rfl, head?_collapse _⟩]
  | later c _ ih => rw [collapse_cons, collapse_cons, ih]

namespace SameRuns

theorem collapse_eq (h : SameRuns a b) : collapse a = collapse b := by
  induction h with
  | rel _ _ hlonger => exact hlonger.collapse_eq
  | refl => rfl
  | symm _ _ _ ih => exact ih.symm
  | trans _ _ _ _ _ ih ih' => exact ih.trans ih'

/-- The same character in front makes no difference. -/
theorem cons (c : Char) (h : SameRuns a b) : SameRuns (c :: a) (c :: b) := by
  induction h with
  | rel _ _ hlonger => exact .rel _ _ (.later c hlonger)
  | refl => exact .refl _
  | symm _ _ _ ih => exact ih.symm
  | trans _ _ _ _ _ ih ih' => exact ih.trans _ _ _ ih'

end SameRuns

/-- **To collapse a word changes its runs only.** -/
theorem sameRuns_collapse (word : List Char) : SameRuns (collapse word) word := by
  fun_induction collapse word with
  | case1 => exact .refl _
  | case2 c rest h ih =>
    obtain ⟨rfl, hhead⟩ := h
    obtain ⟨more, rfl⟩ := List.head?_eq_some_iff.mp hhead
    exact ih.trans _ _ _ (.rel _ _ (.here more))
  | case3 c rest _ ih => exact ih.cons c

/-- **Two words collapse alike** if and only if they differ only in their runs. -/
theorem collapse_eq_collapse_iff : collapse a = collapse b ↔ SameRuns a b := by
  refine ⟨fun heq => ?_, SameRuns.collapse_eq⟩
  have ha : SameRuns (collapse b) a := heq ▸ sameRuns_collapse a
  exact ha.symm.trans _ _ _ (sameRuns_collapse b)

/-- **What a word collapses to** differs from it only in the runs, and no two underscores stand in a
row there. -/
theorem collapse_eq_iff :
    collapse word = short ↔ SameRuns word short ∧ ¬ ['_', '_'] <:+: short := by
  constructor
  · rintro rfl
    exact ⟨(sameRuns_collapse word).symm, not_double_infix_collapse word⟩
  · rintro ⟨hsame, hsingle⟩
    rw [hsame.collapse_eq, collapse_eq_self hsingle]

end Bindery.Ident
