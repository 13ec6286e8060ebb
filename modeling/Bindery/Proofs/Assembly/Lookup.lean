import Bindery.Assembly.Resolution
import Bindery.Proofs.Symbol.Lookup

/-!
# The first type of a name

A table that was made from its symbols answers with the first class or interface of a name
(`Bindery.Assembly.Context.indexed_ofSymbols`). So a symbol that a foreign type refers to is
the **first** of its name (`Bindery.Assembly.Context.IsFirst`), and there is one such symbol
for each name.

What a table answers is thus read off the list of its symbols
(`Bindery.Assembly.Context.Indexed.typeNamed?_eq`), and so is which of them are first
(`Bindery.Assembly.Context.Indexed.isFirst_iff`).
-/

namespace Bindery

namespace Assembly.Context

variable {context : Context} {ref : context.Ref} {name : String}

/-- What stands before a number in the list of all of them are the lower ones. -/
theorem mem_iff_lt_of_split {n : ℕ} {before after : List (Fin n)} {i j : Fin n}
    (hsplit : List.finRange n = before ++ i :: after) : j ∈ before ↔ j < i := by
  have hsorted := List.pairwise_lt_finRange n
  rw [hsplit, List.pairwise_append] at hsorted
  refine ⟨fun hmem => hsorted.2.2 j hmem i List.mem_cons_self, fun hlt => ?_⟩
  have hmem : j ∈ before ++ i :: after := hsplit ▸ List.mem_finRange j
  rcases List.mem_append.mp hmem with hmem | hmem
  · exact hmem
  · rcases List.mem_cons.mp hmem with rfl | hmem
    · exact absurd hlt (lt_irrefl j)
    · exact absurd ((List.pairwise_cons.mp hsorted.2.1).1 j hmem) hlt.asymm

/-! ### Indexes -/

/-- A symbol declares a type of this name. -/
def DeclaresType (context : Context) (name : String) (ref : context.Ref) : Bool :=
  (context.symbol ref).kind.isClassLike && (context.symbol ref).name == name

/-- A class or an interface declares a type of its own name. -/
theorem declaresType_self (h : (context.symbol ref).kind.isClassLike = true) :
    context.DeclaresType (context.symbol ref).name ref = true := by
  rw [DeclaresType, h, Bool.true_and, beq_self_eq_true]

/-- **The index of types is right**: it holds the first class or interface of each name. -/
def Indexed (context : Context) : Prop :=
  ∀ name, context.table.lookupType? name =
    (List.finRange context.table.size).find? (context.DeclaresType name)

/-- **A table that was made from its symbols** has a right index. -/
theorem indexed_ofSymbols (sources : List String) (symbols : List Symbol) (config : Config) :
    Indexed ⟨.ofSymbols sources symbols, config⟩ := by
  exact SymbolTable.getElem?_indexFirst symbols.toArray fun symbol => symbol.kind.isClassLike

/-- A symbol is **the first type of its name**. -/
def IsFirst (context : Context) (ref : context.Ref) : Prop :=
  context.table.lookupType? (context.symbol ref).name = some ref

namespace Indexed

theorem declaresType (h : context.Indexed) (hlookup : context.table.lookupType? name = some ref) :
    context.DeclaresType name ref = true := by
  rw [h name] at hlookup
  exact List.find?_some hlookup

/-- The table answers with a symbol of the name that it is asked for. -/
theorem name_eq (h : context.Indexed) (hlookup : context.table.lookupType? name = some ref) :
    (context.symbol ref).name = name := by
  have hdeclares := h.declaresType hlookup
  rw [DeclaresType, Bool.and_eq_true, beq_iff_eq] at hdeclares
  exact hdeclares.2

theorem isFirst (h : context.Indexed) (hlookup : context.table.lookupType? name = some ref) :
    context.IsFirst ref := by
  rw [IsFirst, h.name_eq hlookup, hlookup]

/-- Of the types of a name, none comes before the one that the table answers with. -/
theorem exists_le (h : context.Indexed) (hdeclares : context.DeclaresType name ref = true) :
    ∃ first, context.table.lookupType? name = some first ∧ first ≤ ref := by
  have hsome : ((List.finRange context.table.size).find? (context.DeclaresType name)).isSome :=
    List.find?_isSome.mpr ⟨ref, List.mem_finRange ref, hdeclares⟩
  obtain ⟨first, hfirst⟩ := Option.isSome_iff_exists.mp hsome
  refine ⟨first, (h name).trans hfirst, ?_⟩
  obtain ⟨-, before, after, hsplit, hbefore⟩ := List.find?_eq_some_iff_append.mp hfirst
  by_contra hlt
  -- nothing before the first one declares a type of this name
  have hnot := hbefore ref ((mem_iff_lt_of_split hsplit).mpr (not_le.mp hlt))
  rw [hdeclares] at hnot
  exact absurd hnot (by decide)

end Indexed

/-- There is one first type for each name. -/
theorem IsFirst.eq {other : context.Ref} (h : context.IsFirst ref) (hother : context.IsFirst other)
    (hname : (context.symbol ref).name = (context.symbol other).name) : ref = other := by
  rw [IsFirst, hname] at h
  exact Option.some.inj (h.symm.trans hother)

/-! ### Types by name -/

/-- **The class or interface of a name**, as the table answers. -/
def typeNamed? (context : Context) (name : String) : Option Symbol :=
  (context.table.lookupType? name).map context.symbol

theorem IsFirst.typeNamed?_eq (h : context.IsFirst ref) :
    context.typeNamed? (context.symbol ref).name = some (context.symbol ref) := by
  rw [typeNamed?, h, Option.map_some]

theorem map_symbol_finRange (context : Context) :
    (List.finRange context.table.size).map context.symbol = context.table.symbols.toList :=
  SymbolTable.map_symbolAt_finRange context.table.symbols

/-- **The class or interface of a name** is the first one among the symbols. -/
theorem Indexed.typeNamed?_eq (h : context.Indexed) (name : String) :
    context.typeNamed? name = context.table.symbols.toList.find? (·.declaresType name) := by
  rw [typeNamed?, h name, ← map_symbol_finRange, List.find?_map]
  rfl

/-- **A symbol is the first type of its name** if it declares one and no symbol before it declares
a type of this name. -/
theorem Indexed.isFirst_iff (h : context.Indexed) :
    context.IsFirst ref ↔ (context.symbol ref).kind.isClassLike = true ∧
      ∀ other < ref, context.DeclaresType (context.symbol ref).name other = false := by
  constructor
  · intro hfirst
    have hdeclares := h.declaresType hfirst
    rw [DeclaresType, Bool.and_eq_true] at hdeclares
    refine ⟨hdeclares.1, fun other hlt => Bool.eq_false_iff.mpr fun hother => ?_⟩
    obtain ⟨first, hlookup, hle⟩ := h.exists_le hother
    obtain rfl : ref = first := Option.some.inj (hfirst.symm.trans hlookup)
    exact absurd hlt (not_lt.mpr hle)
  · rintro ⟨hclass, hbefore⟩
    obtain ⟨first, hlookup, hle⟩ := h.exists_le (declaresType_self hclass)
    rcases hle.lt_or_eq with hlt | rfl
    · exact absurd (h.declaresType hlookup) (Bool.eq_false_iff.mp (hbefore first hlt))
    · exact hlookup

end Assembly.Context

end Bindery
