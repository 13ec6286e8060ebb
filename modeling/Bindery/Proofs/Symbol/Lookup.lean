import Bindery.Symbol.Table
import Mathlib.Data.List.FinRange

/-!
# Lookups and scans

A table is asked for a symbol by its name, and answers from an index. There are two of them, one
for all symbols and one for classes and interfaces, and both are made in one pass in which the
first symbol of a name stays. So an answer is what a **scan** of the symbols would come to
(`Bindery.SymbolTable.IsScan`), from the first to the last, be it for a name or for a type of that
name. A variable or a function that stands before a type of the same name does not pass the second
scan, so it hides nothing from it.

That is how a table answers a list of symbols (`Bindery.SymbolTable.Scans`), and how any table that
is made from a list answers it (`Bindery.SymbolTable.scans_ofSymbols`).
-/

namespace Bindery

/-- A symbol declares a type of this name. -/
def Symbol.declaresType (name : String) (symbol : Symbol) : Bool :=
  symbol.kind.isClassLike && symbol.name == name

theorem Symbol.declaresType_iff {name : String} {symbol : Symbol} :
    symbol.declaresType name = true ↔
      (symbol.kind = .classType ∨ symbol.kind = .interfaceType) ∧ symbol.name = name := by
  rw [declaresType, Bool.and_eq_true, beq_iff_eq]
  cases symbol.kind <;> simp [Kind.isClassLike]

namespace SymbolTable

/-! ### Scans -/

/-- The symbol at a place. -/
def symbolAt (symbols : Array Symbol) (i : Fin symbols.size) : Symbol := symbols.toList.get i

/-- **A scan of some symbols** for one that passes comes to this answer: it is the first of them,
and there is no answer if there is none. -/
structure IsScan (symbols : Array Symbol) (passes : Symbol → Bool)
    (answer : Option (Fin symbols.size)) : Prop where
  /-- The place of the answer is the first place with a symbol that passes. -/
  place_eq : answer.map Fin.val = symbols.toList.findIdx? passes
  /-- What is there is the first symbol that passes. -/
  symbol_eq : answer.map (symbolAt symbols) = symbols.toList.find? passes
  eq_none_iff : answer = none ↔ ∀ symbol ∈ symbols.toList, passes symbol = false

/-- **A table answers as scans of a list of symbols do**. -/
structure Scans (table : SymbolTable) (symbols : List Symbol) : Prop where
  toList_symbols : table.symbols.toList = symbols
  /-- Asked for a name, it answers with the first symbol of that name. -/
  lookup : ∀ name, IsScan table.symbols (·.name == name) (table.lookup? name)
  /-- Asked for a type, it answers with the first class or interface of that name. -/
  lookupType : ∀ name, IsScan table.symbols (·.declaresType name) (table.lookupType? name)
  /-- What the name means as a type is that class or interface. -/
  classify_eq_iff : ∀ name ref,
    table.classify (.named name) = .classLike ref ↔ table.lookupType? name = some ref
  /-- So a name means a type if a class or an interface of that name is in the list. -/
  exists_classify_iff : ∀ name, (∃ ref, table.classify (.named name) = .classLike ref) ↔
    ∃ symbol ∈ symbols,
      (symbol.kind = .classType ∨ symbol.kind = .interfaceType) ∧ symbol.name = name

theorem map_symbolAt_finRange (symbols : Array Symbol) :
    (List.finRange symbols.size).map (symbolAt symbols) = symbols.toList :=
  symbols.toList.map_getElem_finRange

/-- The first number that passes stands at its own place among all of them. -/
theorem map_val_find?_finRange {n : ℕ} (passes : Fin n → Bool) :
    ((List.finRange n).find? passes).map Fin.val = (List.finRange n).findIdx? passes := by
  rw [List.find?_eq_map_findFinIdx?_getElem, List.findIdx?_eq_map_findFinIdx?_val, Option.map_map]
  refine congrArg (Option.map · _) (funext fun i => ?_)
  simp

/-- The first place at which a symbol passes is the answer of a scan. -/
theorem isScan_find? (symbols : Array Symbol) (passes : Symbol → Bool) :
    IsScan symbols passes ((List.finRange symbols.size).find? (passes ∘ symbolAt symbols)) where
  place_eq := by rw [map_val_find?_finRange, ← map_symbolAt_finRange, List.findIdx?_map]
  symbol_eq := by rw [← map_symbolAt_finRange, List.find?_map]
  eq_none_iff := by
    rw [← map_symbolAt_finRange, List.forall_mem_map, List.find?_eq_none]
    simp only [Function.comp_apply, Bool.not_eq_true]

/-! ### Indexes -/

/-- An index of the first items that count holds the first of them that has a key. -/
theorem getElem?_foldl_insertIfNew {α : Type} (key : α → String) (counts : α → Bool)
    (items : List α) (index : Std.TreeMap String α) (name : String) :
    (items.foldl (fun index item =>
        if counts item then index.insertIfNew (key item) item else index) index)[name]? =
      index[name]?.or (items.find? fun item => counts item && key item == name) := by
  induction items generalizing index with
  | nil => rw [List.foldl_nil, List.find?_nil, Option.or_none]
  | cons item items ih =>
    rw [List.foldl_cons, ih, List.find?_cons]
    by_cases hcounts : counts item = true
    · rw [if_pos hcounts, Std.TreeMap.getElem?_insertIfNew]
      simp only [Std.compare_eq_iff_eq, Std.TreeMap.mem_iff_isSome_getElem?]
      by_cases hkey : key item = name
      · subst hkey
        cases index[key item]? with
        | none => simp [hcounts]
        | some first => simp
      · have hother : (key item == name) = false := beq_eq_false_iff_ne.mpr hkey
        simp [hkey, hother]
    · simp [hcounts]

/-- **An index holds the first symbol of a name** among those that count. -/
theorem getElem?_indexFirst (symbols : Array Symbol) (counts : Symbol → Bool) (name : String) :
    (indexFirst symbols counts)[name]? = (List.finRange symbols.size).find?
      ((fun symbol => counts symbol && symbol.name == name) ∘ symbolAt symbols) := by
  refine (getElem?_foldl_insertIfNew _ _ _ _ _).trans ?_
  exact congrArg (Option.or · _) Std.TreeMap.getElem?_emptyc

theorem isScan_indexFirst (symbols : Array Symbol) (counts : Symbol → Bool) (name : String) :
    IsScan symbols (fun symbol => counts symbol && symbol.name == name)
      (indexFirst symbols counts)[name]? := by
  rw [getElem?_indexFirst]
  exact isScan_find? symbols _

/-! ### Tables -/

/-- **What refers to a class or an interface**: the names that the table answers to. -/
theorem classify_eq_classLike_iff {table : SymbolTable} {type : ForeignType}
    {ref : Fin table.size} : table.classify type = .classLike ref ↔
      ∃ name, type = .named name ∧ table.lookupType? name = some ref := by
  cases type with
  | named name =>
    rw [SymbolTable.classify]
    cases hlookup : table.lookupType? name with
    | none => simp [hlookup]
    | some other => simp [hlookup]
  | _ => simp [SymbolTable.classify]

/-- **A table that is made from a list** answers as scans of it do. -/
theorem scans_ofSymbols (sources : List String) (symbols : List Symbol) :
    (ofSymbols sources symbols).Scans symbols where
  toList_symbols := rfl
  lookup := isScan_indexFirst symbols.toArray fun _ => true
  lookupType := isScan_indexFirst symbols.toArray fun symbol => symbol.kind.isClassLike
  classify_eq_iff := by simp [classify_eq_classLike_iff]
  exists_classify_iff name := by
    have hscan : IsScan symbols.toArray (·.declaresType name) _ :=
      isScan_indexFirst symbols.toArray (fun symbol => symbol.kind.isClassLike) name
    have hnone : (ofSymbols sources symbols).lookupType? name = none ↔
        ∀ symbol ∈ symbols, symbol.declaresType name = false := hscan.eq_none_iff
    have hsome : (∃ ref, (ofSymbols sources symbols).classify (.named name) = .classLike ref) ↔
        (ofSymbols sources symbols).lookupType? name ≠ none := by
      simp [classify_eq_classLike_iff, Option.ne_none_iff_exists']
    rw [hsome, Ne, hnone]
    simp [Symbol.declaresType_iff]

end SymbolTable

end Bindery
