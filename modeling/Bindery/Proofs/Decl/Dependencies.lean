import Bindery.Decl.Basic
import Mathlib.Logic.Basic

/-!
# What declarations depend on

The dependencies of a declaration are the keys that it mentions, less its own. They are
keys of types throughout (`Bindery.Decl.exists_of_mem_dependencies`), as only types are
referred to, so no declaration depends on itself
(`Bindery.Decl.notMem_dependencies_of_key?`): one that is no type has no such key, and a
type does not count itself.
-/

namespace Bindery.Decl

variable {key : Key}

/-- Keys compare as equal only if they are. -/
theorem Key.compare_eq_iff {a b : Key} : compare a b = .eq ↔ a = b :=
  Std.LawfulEqCmp.compare_eq_iff_eq

/-! ### Keys that are mentioned -/

theorem TypeRef.exists_of_key? {ref : TypeRef} (h : ref.key? = some key) :
    ∃ name, key = .type name := by
  cases ref with
  | primitive => cases h
  | declared ident => exact ⟨ident.foreign, (Option.some.inj h).symm⟩

theorem exists_of_mem_paramKeys {params : List Parameter} (h : key ∈ paramKeys params) :
    ∃ name, key = .type name := by
  obtain ⟨param, -, hkey⟩ := List.mem_filterMap.mp h
  exact TypeRef.exists_of_key? hkey

theorem Signature.exists_of_mem_references {signature : Signature}
    (h : key ∈ signature.references) : ∃ name, key = .type name := by
  rcases List.mem_append.mp h with h | h
  · exact exists_of_mem_paramKeys h
  · exact TypeRef.exists_of_key? (Option.mem_toList.mp h)

theorem TypeDecl.exists_of_mem_references {type : TypeDecl} (h : key ∈ type.references) :
    ∃ name, key = .type name := by
  simp only [references, List.mem_append, List.mem_flatMap, List.mem_filterMap] at h
  rcases h with ((h | ⟨field, -, h⟩) | ⟨constructor, -, h⟩) | ⟨method, -, h⟩
  · obtain ⟨parent, -, rfl⟩ := Option.map_eq_some_iff.mp (Option.mem_toList.mp h)
    exact ⟨parent.ident.foreign, rfl⟩
  · exact TypeRef.exists_of_key? h
  · exact exists_of_mem_paramKeys h
  · exact method.exists_of_mem_references h

/-- What the parameters of a constructor refer to, the type refers to. -/
theorem TypeDecl.mem_references_of_constructor {type : TypeDecl} {constructor : Constructor}
    (hmem : constructor ∈ type.body.constructors) (hkey : key ∈ paramKeys constructor.params) :
    key ∈ type.references := by
  simp only [references, List.mem_append, List.mem_flatMap]
  exact .inl (.inr ⟨constructor, hmem, hkey⟩)

/-! ### Dependencies -/

theorem mem_ofList_iff {keys : List Key} : key ∈ Std.TreeSet.ofList keys ↔ key ∈ keys := by
  rw [Std.TreeSet.mem_ofList, List.contains_iff_mem]

/-- A type depends on what it mentions, except for itself. -/
theorem TypeDecl.mem_dependencies {type : TypeDecl} :
    key ∈ type.dependencies ↔ key ≠ type.key ∧ key ∈ type.references := by
  rw [dependencies, Std.TreeSet.mem_erase, mem_ofList_iff, Ne, Key.compare_eq_iff, eq_comm]

/-- **Only types are depended upon.** -/
theorem exists_of_mem_dependencies {decl : Decl} (h : key ∈ decl.dependencies) :
    ∃ name, key = .type name := by
  cases decl with
  | primitive type => exact absurd h Std.TreeSet.not_mem_emptyc
  | global g => exact TypeRef.exists_of_key? (Option.mem_toList.mp (mem_ofList_iff.mp h))
  | parameter p => exact TypeRef.exists_of_key? (Option.mem_toList.mp (mem_ofList_iff.mp h))
  | field f => exact TypeRef.exists_of_key? (Option.mem_toList.mp (mem_ofList_iff.mp h))
  | signature s => exact s.exists_of_mem_references (mem_ofList_iff.mp h)
  | constructor c => exact exists_of_mem_paramKeys (mem_ofList_iff.mp h)
  | type t => exact t.exists_of_mem_references (TypeDecl.mem_dependencies.mp h).2

/-- A declaration with the key of a type is that type. -/
theorem exists_of_key?_eq_type {decl : Decl} {name : String} (h : decl.key? = some (.type name)) :
    ∃ type, decl = .type type ∧ type.ident.foreign = name := by
  cases decl with
  | type t => exact ⟨t, rfl, Key.type.inj (Option.some.inj h)⟩
  | signature s =>
    rw [key?, Signature.key?] at h
    split at h <;> cases h
  | primitive | global | parameter | field | constructor => cases h

/-- **No declaration depends on itself.** -/
theorem notMem_dependencies_of_key? {decl : Decl} (h : decl.key? = some key) :
    key ∉ decl.dependencies := by
  intro hmem
  obtain ⟨name, rfl⟩ := exists_of_mem_dependencies hmem
  obtain ⟨type, rfl, rfl⟩ := exists_of_key?_eq_type h
  exact (TypeDecl.mem_dependencies.mp hmem).1 rfl

end Bindery.Decl
