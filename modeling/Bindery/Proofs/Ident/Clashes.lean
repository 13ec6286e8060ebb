import Bindery.Proofs.Ident.Runs

/-!
# When two names become one

To make a name legal its runs of underscores collapse, and a name that begins with an underscore or
is reserved gets a **mark** (`Bindery.Ident.mark?`). Both may turn two foreign names into the same
identifier, and which of them do can be told from the names (`Bindery.Ident.sanitize_eq_iff`): two
names without marks only **clash** if they collapse alike, which is to say that they differ only in
their runs (`Bindery.Ident.clash_iff_of_unmarked`); two marks have to be the same and stand before
the same letters, except that the first one may be a capital; and a name with a mark is that of
another symbol only if this one already looks as if it had the mark
(`Bindery.Ident.clash_iff_of_marked`).
-/

namespace Bindery.Ident

variable {reserved : Std.TreeSet String} {a b name : String} {mark mark' : Char}
  {word word' : List Char}

/-- A word whose first character is a capital. -/
def capital : List Char → List Char
  | [] => []
  | c :: rest => Text.upperCase c ++ rest

theorem marked_eq_cons (mark : Char) (word : List Char) :
    marked mark word = mark :: capital word := by
  cases word <;> rfl

theorem marked_eq_marked_iff : marked mark word = marked mark' word' ↔
    mark = mark' ∧ capital word = capital word' := by
  rw [marked_eq_cons, marked_eq_cons, List.cons.injEq]

/-- **The mark of a name**, and what it stands before: a reserved name gets one as it is, and a name
that begins with an underscore gets one in its place. -/
def mark? (reserved : Std.TreeSet String) (name : String) : Option (Char × List Char) :=
  if reserved.contains (String.ofList (plain name.toList)) then some ('x', plain name.toList)
  else
    match collapse name.toList with
    | '_' :: rest => some ('z', rest)
    | _ => none

/-- **Two names clash**, as their marks have it. -/
def Clash (reserved : Std.TreeSet String) (a b : String) : Prop :=
  match mark? reserved a, mark? reserved b with
  | none, none => collapse a.toList = collapse b.toList
  | none, some (mark, word) => collapse a.toList = marked mark word
  | some (mark, word), none => marked mark word = collapse b.toList
  | some (mark, word), some (mark', word') => mark = mark' ∧ capital word = capital word'

/-- A name is marked, or it just collapses. -/
theorem toList_sanitize (reserved : Std.TreeSet String) (name : String) :
    (sanitize reserved name).toList =
      (mark? reserved name).elim (collapse name.toList) fun (mark, word) => marked mark word := by
  rw [sanitize, mark?]
  split
  · rw [String.toList_ofList]
    rfl
  · rw [String.toList_ofList, plain]
    split
    · next rest heq => rw [heq]; rfl
    · next hne => grind

/-- **Two names become one** if and only if they clash. -/
theorem sanitize_eq_iff : sanitize reserved a = sanitize reserved b ↔ Clash reserved a b := by
  rw [← String.toList_inj, toList_sanitize, toList_sanitize, Clash]
  cases mark? reserved a with
  | none => cases mark? reserved b <;> rfl
  | some marking =>
    cases mark? reserved b with
    | none => rfl
    | some marking' => exact marked_eq_marked_iff

/-- **Names without marks clash** if and only if they differ only in their runs of underscores. -/
theorem clash_iff_of_unmarked (ha : mark? reserved a = none) (hb : mark? reserved b = none) :
    Clash reserved a b ↔ SameRuns a.toList b.toList := by
  rw [Clash, ha, hb]
  exact collapse_eq_collapse_iff

/-- **A name without a mark clashes with one that gets a mark** if and only if it already is the
marked form, but for its runs; the marked form has none. -/
theorem clash_iff_of_marked (ha : mark? reserved a = none)
    (hb : mark? reserved b = some (mark, word)) : Clash reserved a b ↔
      SameRuns a.toList (mark :: capital word) ∧ ¬ ['_', '_'] <:+: mark :: capital word := by
  rw [Clash, ha, hb, ← marked_eq_cons]
  exact collapse_eq_iff

theorem clash_comm : Clash reserved a b ↔ Clash reserved b a := by
  rw [← sanitize_eq_iff, eq_comm, sanitize_eq_iff]

end Bindery.Ident
