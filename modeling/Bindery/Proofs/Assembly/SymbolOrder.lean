import Bindery.Proofs.Assembly.Mirroring
import Mathlib.Data.List.Find

/-!
# The order of symbols

Two symbols **clash** if both are types, both are variables or both are functions, under the same
name (`Bindery.Symbol.Clashes`). Where no symbols clash, each name has one type, so it does not
matter which symbol comes first: a table with the same symbols in another order is a **shuffle**
(`Bindery.Assembly.Context.Shuffle`), and the same names mean the same types in it.

The declarations of a module are those that its table **offers**
(`Bindery.Assembly.Context.Assembles.mem_decls_iff`), which is said without any state. So it can be
compared: a shuffle offers the same declarations
(`Bindery.Assembly.Context.Shuffle.offers_iff`), and their keys tell them apart
(`Bindery.Assembly.Context.Shuffle.eq_of_key?`).
-/

namespace Bindery

/-- **Two symbols clash**: they have the same name, and both are types, both are variables or both
are functions. -/
def Symbol.Clashes (symbol other : Symbol) : Prop :=
  symbol.name = other.name ∧
    (symbol.kind = other.kind ∨ symbol.kind.isClassLike ∧ other.kind.isClassLike)

instance (symbol other : Symbol) : Decidable (symbol.Clashes other) :=
  inferInstanceAs (Decidable (_ ∧ _))

theorem Symbol.Clashes.symm {symbol other : Symbol} (h : symbol.Clashes other) :
    other.Clashes symbol :=
  ⟨h.1.symm, h.2.imp Eq.symm And.symm⟩

namespace Assembly.Context

open Decl (Key TypeDecl)

variable {context other : Context} {decl : Decl}

/-- Each symbol is only like itself. -/
def identity (hindexed : context.Indexed) : context.Likeness where
  symbols := Eq
  types := Eq
  telling := .inOrder
  taken := fun _ => []
  eq_with := fun h => h ▸ rfl
  ident_eq := @Likeness.ident_eq_of_eq
  parent? := @Likeness.rel_parent?_of_eq
  typeOn := by
    rintro symbol _ parent _ rfl hparent
    obtain rfl := rel_eq_iff.mp hparent
    obtain ⟨type, htype⟩ := exists_typeOn hindexed symbol parent
    have hshown : (context.typeOn symbol parent).shown =
        (.ok type, (context.typeOn symbol parent).shown.2) := Prod.ext htype rfl
    exact ⟨type, type, _, _, hshown, hshown, rfl, .none _⟩

/-! ### Shuffles -/

/-- **A table is a shuffle of another**: it holds the same symbols, no two of which
clash. -/
structure Shuffle (context other : Context) : Prop where
  indexed : context.Indexed
  indexed' : other.Indexed
  config_eq : other.config = context.config
  perm : context.table.symbols.toList.Perm other.table.symbols.toList
  eq_of_clashes : ∀ symbol ∈ context.table.symbols.toList,
    ∀ symbol' ∈ context.table.symbols.toList, symbol.Clashes symbol' → symbol = symbol'

/-- Symbols clash if they declare types of the same name. -/
theorem clashes_of_declaresType {name : String} {symbol symbol' : Symbol}
    (h : symbol.declaresType name = true) (h' : symbol'.declaresType name = true) :
    symbol.Clashes symbol' := by
  rw [Symbol.declaresType, Bool.and_eq_true, beq_iff_eq] at h h'
  exact ⟨h.2.trans h'.2.symm, Or.inr ⟨h.1, h'.1⟩⟩

namespace Shuffle

theorem symm (h : Shuffle context other) : Shuffle other context where
  indexed := h.indexed'
  indexed' := h.indexed
  config_eq := h.config_eq.symm
  perm := h.perm.symm
  eq_of_clashes := fun symbol hsymbol symbol' hsymbol' =>
    h.eq_of_clashes symbol (h.perm.mem_iff.mpr hsymbol) symbol' (h.perm.mem_iff.mpr hsymbol')

variable (h : Shuffle context other)

include h

/-- **The same symbols declare types** in both tables, as no name has two of them. -/
theorem typeNamed?_eq (name : String) : context.typeNamed? name = other.typeNamed? name := by
  rw [h.indexed.typeNamed?_eq, h.indexed'.typeNamed?_eq]
  refine List.find?_eq_find?_of_perm h.perm ?_
  rintro symbol ⟨hsymbol, hdeclares⟩ symbol' ⟨hsymbol', hdeclares'⟩
  exact h.eq_of_clashes symbol hsymbol symbol' hsymbol'
    (clashes_of_declaresType hdeclares hdeclares')

theorem mirrors : Mirrors other (identity h.indexed) where
  indexed := h.indexed
  indexed' := h.indexed'
  config_eq := h.config_eq
  named := fun name => rel_eq_iff.mpr (h.typeNamed?_eq name)

end Shuffle

/-! ### What a table offers -/

/-- **A table offers a declaration**: the first type of a name declares it, or a symbol comes to
it. -/
inductive Offers (context : Context) : Decl → Prop
  | type {type : TypeDecl} {ref : context.Ref}
    (hlookup : context.table.lookupType? type.ident.foreign = some ref)
    (htype : context.Declares ref type) : Offers context (.type type)
  | value {symbol : Symbol} {decl : Decl} (hsymbol : symbol ∈ context.table.symbols.toList)
    (hvalue : decl ∈ context.values symbol) : Offers context decl

/-- **The module of all symbols** declares whatever the table offers. -/
theorem Assembles.mem_decls_iff {assembled : Assembled} {values : List Decl}
    {last : State context.table.size} (h : context.Assembles assembled values last)
    (hindexed : context.Indexed) : decl ∈ assembled.decls ↔ context.Offers decl := by
  constructor
  · intro hdecl
    have hsplit := hdecl
    rw [h.decls_eq_append hindexed] at hsplit
    rcases List.mem_append.mp hsplit with htype | hvalue
    · obtain ⟨type, -, rfl⟩ := List.mem_map.mp htype
      obtain ⟨ref, hlookup, htype⟩ := (h.type_mem_decls_iff hindexed).mp hdecl
      exact .type hlookup htype
    · obtain ⟨symbol, hsymbol, hvalue⟩ := (h.mem_values_iff hindexed).mp hvalue
      exact .value hsymbol hvalue
  · rintro (⟨hlookup, htype⟩ | ⟨hsymbol, hvalue⟩)
    · exact (h.type_mem_decls_iff hindexed).mpr ⟨_, hlookup, htype⟩
    · rw [h.decls_eq_append hindexed]
      exact List.mem_append_right _ ((h.mem_values_iff hindexed).mpr ⟨_, hsymbol, hvalue⟩)

/-- Symbols clash if they come to declarations with the same key. -/
theorem clashes_of_key? {symbol symbol' : Symbol} {decl' : Decl} {key : Key}
    (hdecl : decl ∈ context.values symbol) (hdecl' : decl' ∈ context.values symbol')
    (hkey : decl.key? = some key) (hkey' : decl'.key? = some key) : symbol.Clashes symbol' := by
  have hcases := key?_of_mem_values hdecl
  have hcases' := key?_of_mem_values hdecl'
  simp only [hkey, Option.some.injEq] at hcases
  simp only [hkey', Option.some.injEq] at hcases'
  rcases hcases with ⟨hkind, rfl⟩ | ⟨hkind, overload, rfl⟩
  · rcases hcases' with ⟨hkind', heq⟩ | ⟨-, _, ⟨⟩⟩
    exact ⟨Key.global.inj heq, Or.inl (hkind.trans hkind'.symm)⟩
  · rcases hcases' with ⟨-, ⟨⟩⟩ | ⟨hkind', overload', heq⟩
    exact ⟨(Key.function.inj heq).1, Or.inl (hkind.trans hkind'.symm)⟩

namespace Shuffle

variable (h : Shuffle context other)

include h

theorem offers (hdecl : context.Offers decl) : other.Offers decl := by
  cases hdecl with
  | type hlookup htype =>
    obtain ⟨ref', hlookup', hsymbols⟩ := h.mirrors.exists_lookup hlookup
    obtain ⟨_, htype', rfl⟩ := h.mirrors.exists_declares htype hsymbols
    exact .type hlookup' htype'
  | value hsymbol hvalue =>
    rw [← h.mirrors.resolveAlike.values_eq] at hvalue
    exact .value (h.perm.mem_iff.mp hsymbol) hvalue

/-- **A shuffle offers the same declarations.** -/
theorem offers_iff : context.Offers decl ↔ other.Offers decl := ⟨h.offers, h.symm.offers⟩

/-- **Keys tell apart what is offered** where no symbols clash. -/
theorem eq_of_key? {decl' : Decl} {key : Key} (hdecl : context.Offers decl)
    (hdecl' : context.Offers decl') (hkey : decl.key? = some key) (hkey' : decl'.key? = some key) :
    decl = decl' := by
  cases hdecl with
  | @type type ref hlookup htype =>
    obtain rfl : type.key = key := Option.some.inj hkey
    cases hdecl' with
    | @type type' ref' hlookup' htype' =>
      have hname : type'.ident.foreign = type.ident.foreign := Key.type.inj (Option.some.inj hkey')
      obtain rfl : ref' = ref := Option.some.inj (hlookup'.symm.trans (hname ▸ hlookup))
      exact congrArg Decl.type (htype.unique htype')
    | value _ hvalue' => exact absurd hkey' (key?_ne_type hvalue' _)
  | @value symbol _ hsymbol hvalue =>
    -- two values of one key come from symbols that clash, so from the same one
    cases hdecl' with
    | type =>
      obtain rfl := Option.some.inj hkey'
      exact absurd hkey (key?_ne_type hvalue _)
    | @value symbol' _ hsymbol' hvalue' =>
      obtain rfl := h.eq_of_clashes symbol hsymbol symbol' hsymbol'
        (clashes_of_key? hvalue hvalue' hkey hkey')
      exact List.inj_on_of_nodup_map (nodup_keys_values context symbol) hvalue hvalue'
        (hkey.trans hkey'.symm)

end Shuffle

end Assembly.Context

end Bindery
