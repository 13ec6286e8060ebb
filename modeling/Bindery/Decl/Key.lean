import Std.Data.TreeSet

/-!
# Keys of declarations

A **key** says which declaration is meant, whatever it looks like. It is made of
foreign names, which are unique, and not of generated ones, which are not. The
overloads of a function are declarations of their own.

Keys are ordered: types before global variables before functions, then by name, then
by overload. The order is a linear one (`Bindery.Decl.Key` is a `Std.TransOrd` and a
`Std.LawfulEqOrd`), so keys can be collected in sets.
-/

namespace Bindery.Decl

/-- **Which declaration is meant**. -/
inductive Key where
  | type (name : String)
  | global (name : String)
  /-- One overload of a function. -/
  | function (name : String) (overload : Nat)
  deriving DecidableEq, Repr

namespace Key

/-- The foreign name of what is declared. -/
def name : Key → String
  | type name | global name | function name _ => name

/-- The overload that is meant. What has no overloads counts as the first. -/
def overload : Key → Nat
  | type _ | global _ => 0
  | function _ overload => overload

/-- The place of the kind of declaration in the order. -/
def rank : Key → Nat
  | type _ => 0
  | global _ => 1
  | function _ _ => 2

instance : Ord Key where
  compare := compareLex (compareOn rank) (compareLex (compareOn name) (compareOn overload))

instance : Std.TransOrd Key :=
  inferInstanceAs (Std.TransCmp
    (compareLex (compareOn rank) (compareLex (compareOn name) (compareOn overload))))

theorem ext_of_parts {a b : Key} (hrank : a.rank = b.rank) (hname : a.name = b.name)
    (hoverload : a.overload = b.overload) : a = b := by
  cases a <;> cases b <;> simp_all [rank, name, overload]

instance : Std.LawfulEqOrd Key where
  eq_of_compare {a b} h := by
    obtain ⟨hrank, h⟩ := Ordering.then_eq_eq.1 h
    obtain ⟨hname, hoverload⟩ := Ordering.then_eq_eq.1 h
    exact ext_of_parts (Std.LawfulEqCmp.eq_of_compare hrank)
      (Std.LawfulEqCmp.eq_of_compare hname) (Std.LawfulEqCmp.eq_of_compare hoverload)

end Key

end Bindery.Decl
