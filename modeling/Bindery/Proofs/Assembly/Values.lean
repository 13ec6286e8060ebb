import Bindery.Proofs.Assembly.Skips

/-!
# What variables and functions come to

Overloads are resolved one by one, and each of them either is built or leaves one diagnostic
(`Bindery.Assembly.exists_overloads`). So the declarations that a symbol comes to when it stands
aside, and what is told of it, are as many together as the symbol **counts for**
(`Bindery.Assembly.Context.length_values_add`): its overloads if it is a function that is not
denied, and one otherwise.

These declarations stand on their own, under keys made of the name of the symbol, and no two of
them have the same key (`Bindery.Assembly.Context.nodup_keys_values`).
-/

namespace Bindery.Assembly

open Decl (Key)

variable {n : ℕ} {α β : Type}

/-! ### Attempts -/

namespace Attempt

/-- If two attempts succeed one after the other, each of them succeeds. -/
theorem exists_of_bind_ok {attempt : Attempt n α} {next : α → Attempt n β} {result : β}
    (h : (attempt >>= next).outcome = .ok result) :
    ∃ value, attempt.outcome = .ok value ∧ (next value).outcome = .ok result := by
  change (attempt.andThen next).outcome = .ok result at h
  rw [andThen] at h
  cases houtcome : attempt.outcome with
  | error failure =>
    rw [houtcome] at h
    cases h
  | ok value =>
    rw [houtcome] at h
    exact ⟨value, rfl, h⟩

/-- **A silent attempt at a member** either succeeds or leaves one diagnostic. -/
theorem exists_shown_recover {attempt : Attempt n α} {fit : Fin n → Prop}
    {post : (Fin n → Prop) → α → Prop} (what : String)
    (h : attempt.Runs fit Failure.IsUnrepresentable post) (hsilent : attempt.Silent) :
    ∃ value? told, (attempt.recover what).shown = (.ok value?, told) ∧
      value?.toList.length + told.length = 1 := by
  rw [shown_recover, shown, hsilent.diagnostics_eq]
  cases houtcome : attempt.outcome with
  | ok value => exact ⟨some value, [], rfl, rfl⟩
  | error failure =>
    obtain ⟨type, rfl⟩ := h.failed failure houtcome
    exact ⟨none, _, rfl, rfl⟩

theorem outcome_of_recover {attempt : Attempt n α} {what : String} {value : α}
    (h : (attempt.recover what).outcome = .ok (some value)) : attempt.outcome = .ok value := by
  rw [recover] at h
  split at h
  · next other heq =>
    obtain rfl := Option.some.inj (Except.ok.inj h)
    exact heq
  · cases h
  · cases h

end Attempt

/-! ### Overloads -/

section Overloads

variable (kind owner : String) {build : ℕ → Symbol.Signature → Attempt n α}

/-- **Each overload is built or leaves one diagnostic.** -/
theorem exists_overloads {fit : Fin n → Prop} {post : (Fin n → Prop) → α → Prop}
    (hbuild : ∀ number signature,
      (build number signature).Runs fit Failure.IsUnrepresentable post)
    (hsilent : ∀ number signature, (build number signature).Silent) (number : ℕ)
    (signatures : List Symbol.Signature) :
    ∃ values told, (overloads kind owner build number signatures).shown = (.ok values, told) ∧
      values.length + told.length = signatures.length := by
  induction signatures generalizing number with
  | nil => exact ⟨[], [], rfl, rfl⟩
  | cons signature signatures ih =>
    obtain ⟨value?, told, hfirst, hone⟩ := Attempt.exists_shown_recover
      (overloadName kind number owner) (hbuild number signature) (hsilent number signature)
    obtain ⟨values, rest, hrest, hlength⟩ := ih (number + 1)
    refine ⟨value?.toList ++ values, told ++ rest, ?_, ?_⟩
    · simp [overloads, hfirst, hrest]
    · simp only [List.length_append, List.length_cons]
      omega

variable {kind owner}

/-- **Overloads keep their numbers**, in order. -/
theorem pairwise_overloads {numberOf : α → ℕ}
    (hbuild : ∀ number signature value, (build number signature).outcome = .ok value →
      numberOf value = number) {number : ℕ} {signatures : List Symbol.Signature} {values : List α}
    (h : (overloads kind owner build number signatures).outcome = .ok values) :
    (∀ value ∈ values, number ≤ numberOf value ∧
        ∃ signature, (build (numberOf value) signature).outcome = .ok value) ∧
      (values.map numberOf).Pairwise (· < ·) := by
  induction signatures generalizing number values with
  | nil =>
    obtain rfl := Except.ok.inj h
    exact ⟨fun _ hmem => absurd hmem List.not_mem_nil, .nil⟩
  | cons signature signatures ih =>
    obtain ⟨value?, hfirst, hnext⟩ := Attempt.exists_of_bind_ok h
    obtain ⟨rest, hrest, hvalues⟩ := Attempt.exists_of_bind_ok hnext
    obtain rfl := Except.ok.inj hvalues
    obtain ⟨hall, hpairwise⟩ := ih hrest
    -- if the first one is built, it has the number of its place, and the others have higher ones
    have hhead : ∀ value ∈ value?.toList, numberOf value = number ∧
        (build number signature).outcome = .ok value := by
      intro value hvalue
      obtain rfl := Option.mem_toList.mp hvalue
      have hvalue := Attempt.outcome_of_recover hfirst
      exact ⟨hbuild number signature value hvalue, hvalue⟩
    constructor
    · intro value hvalue
      rcases List.mem_append.mp hvalue with hvalue | hvalue
      · obtain ⟨heq, hvalue⟩ := hhead value hvalue
        exact ⟨heq.ge, signature, heq.symm ▸ hvalue⟩
      · exact ⟨Nat.le_of_succ_le (hall value hvalue).1, (hall value hvalue).2⟩
    · rw [List.map_append, List.pairwise_append]
      refine ⟨?_, hpairwise, ?_⟩
      · cases value? with
        | none => exact .nil
        | some value => exact List.pairwise_singleton _ _
      · simp only [List.forall_mem_map]
        intro first hfirst value hvalue
        rw [(hhead first hfirst).1]
        exact (hall value hvalue).1

end Overloads

namespace Context

open Attempt (exists_of_bind_ok)

variable {context : Context} {symbol : Symbol} {decl : Decl}

/-! ### Denied symbols -/

/-- **What is told of a denied symbol.** -/
def symbolDenial (symbol : Symbol) : Diagnostic :=
  ⟨.skipped, "skipping `" ++ symbol.name ++ "`: denylisted"⟩

theorem told_of_denied (symbol : Symbol) {α : Type} :
    (absorb symbol.name (.error (.refused symbol.name .denied) : Except Failure α)).2.diagnostics =
      [symbolDenial symbol] := by
  have hreason : skipReason symbol.name (.refused symbol.name .denied) = "denylisted" := if_pos rfl
  have hjoin : "`: denylisted" = "`: " ++ "denylisted" := by decide
  rw [symbolDenial, hjoin, ← String.append_assoc, ← hreason]
  rfl

/-- **A denied variable or function** leaves nothing but its denial. -/
theorem aside_of_denied (hvalue : symbol.kind.isClassLike = false)
    (hdenied : context.denies symbol = true) :
    context.values symbol = [] ∧ context.omissions symbol = [symbolDenial symbol] := by
  have haside : (context.aside symbol).shown = (.error (.refused symbol.name .denied), []) := by
    cases hkind : symbol.kind with
    | global => rw [shown_aside_global hkind, Context.global, if_pos hdenied]; rfl
    | function => rw [shown_aside_function hkind, Context.function, if_pos hdenied]; rfl
    | classType => exact absurd (hkind ▸ hvalue) (by decide)
    | interfaceType => exact absurd (hkind ▸ hvalue) (by decide)
  have houtcome : (context.aside symbol).outcome = .error (.refused symbol.name .denied) :=
    congrArg Prod.fst haside
  rw [values, omissions, haside, houtcome, told_of_denied]
  exact ⟨rfl, rfl⟩

/-! ### How many declarations there are -/

/-- **What a symbol counts for**: the overloads of a function that is not denied, and one for
anything else. -/
def weight (context : Context) (symbol : Symbol) : ℕ :=
  if symbol.kind = .function ∧ context.denies symbol = false then symbol.signatures.length else 1

theorem length_aside {outcome : Except Failure (List Decl)} {told : List Diagnostic}
    (hshown : (context.aside symbol).shown = (outcome, told)) :
    (context.values symbol).length + (context.omissions symbol).length =
      (kept outcome).length +
        (told.length + (absorb symbol.name outcome).2.diagnostics.length) := by
  have houtcome : (context.aside symbol).outcome = outcome := congrArg Prod.fst hshown
  rw [values, omissions, hshown, houtcome, List.length_append]

theorem length_absorb_error {α : Type} {failure : Failure} (name : String)
    (h : failure.isRecoverable = true) :
    (absorb name (.error failure : Except Failure α)).2.diagnostics.length = 1 := by
  rw [absorb, if_pos h]
  rfl

theorem length_aside_global (hindexed : context.Indexed) (hkind : symbol.kind = .global) :
    (context.values symbol).length + (context.omissions symbol).length = 1 := by
  rw [length_aside (shown_aside_global hkind), (silent_global symbol).diagnostics_eq,
    List.length_nil, Nat.zero_add]
  cases houtcome : (context.global symbol).outcome with
  | ok global => rfl
  | error failure =>
    exact (Nat.zero_add _).trans
      (length_absorb_error _ ((runs_global hindexed symbol).failed failure houtcome))

theorem length_aside_function (hindexed : context.Indexed) (hkind : symbol.kind = .function)
    (hallowed : context.denies symbol = false) :
    (context.values symbol).length + (context.omissions symbol).length =
      symbol.signatures.length := by
  obtain ⟨built, told, hshown, hlength⟩ := exists_overloads "overload" symbol.name
    (runs_signature hindexed symbol.name none)
    (silent_signature symbol.name none) 0 symbol.signatures
  have hfunction : (context.function symbol).shown = (.ok built, told) := by
    rw [Context.function, if_neg (Bool.eq_false_iff.mp hallowed)]
    simp [hshown, Report.debug]
  obtain ⟨houtcome, hnotes⟩ := Prod.mk.inj hfunction
  rw [length_aside (shown_aside_function hkind), houtcome, hnotes, ← hlength]
  change (built.map Decl.signature).length + (told.length + 0) = _
  rw [List.length_map, Nat.add_zero]

/-- **A symbol that stands aside** comes to as many declarations and diagnostics together as it
counts for. -/
theorem length_values_add (hindexed : context.Indexed) (symbol : Symbol) :
    (context.values symbol).length + (context.omissions symbol).length = context.weight symbol := by
  rw [weight]
  by_cases hclass : symbol.kind.isClassLike = true
  · rw [length_aside (shown_aside_classLike hclass), if_neg]
    · rfl
    · rintro ⟨hkind, -⟩
      exact absurd (hkind ▸ hclass) (by decide)
  · cases hkind : symbol.kind with
    | global => exact length_aside_global hindexed hkind
    | function =>
      cases hdenied : context.denies symbol with
      | false => exact length_aside_function hindexed hkind hdenied
      | true =>
        obtain ⟨hvalues, homissions⟩ := aside_of_denied (Bool.eq_false_iff.mpr hclass) hdenied
        rw [hvalues, homissions]
        rfl
    | classType => exact absurd (hkind ▸ rfl) hclass
    | interfaceType => exact absurd (hkind ▸ rfl) hclass

/-! ### Their keys -/

theorem ident_of_global {global : Decl.Global} (h : (context.global symbol).outcome = .ok global) :
    global.ident.foreign = symbol.name := by
  rw [Context.global] at h
  split at h
  · cases h
  · obtain ⟨type, -, h⟩ := exists_of_bind_ok h
    obtain ⟨-, -, h⟩ := exists_of_bind_ok h
    obtain rfl := Except.ok.inj h
    rfl

theorem of_signature_ok {name : String} {overload : ℕ} {signature : Symbol.Signature}
    {built : Decl.Signature}
    (h : (context.signature name none overload signature).outcome = .ok built) :
    built.overload = overload ∧ built.key? = some (.function name overload) := by
  obtain ⟨params, -, h⟩ := exists_of_bind_ok h
  obtain ⟨returns, -, h⟩ := exists_of_bind_ok h
  obtain rfl := Except.ok.inj h
  exact ⟨rfl, rfl⟩

/-- **The overloads of a function** have different numbers, and their keys say which. -/
theorem overloads_of_function {built : List Decl.Signature}
    (h : (context.function symbol).outcome = .ok built) :
    (∀ signature ∈ built, signature.key? = some (.function symbol.name signature.overload)) ∧
      (built.map Decl.Signature.overload).Pairwise (· < ·) := by
  rw [Context.function] at h
  split at h
  · cases h
  · obtain ⟨signatures, hsignatures, h⟩ := exists_of_bind_ok h
    obtain ⟨-, -, h⟩ := exists_of_bind_ok h
    obtain rfl := Except.ok.inj h
    obtain ⟨hall, hpairwise⟩ := pairwise_overloads
      (fun number signature value hvalue => (of_signature_ok hvalue).1) hsignatures
    refine ⟨fun signature hsignature => ?_, hpairwise⟩
    obtain ⟨-, given, hgiven⟩ := hall signature hsignature
    exact (of_signature_ok hgiven).2

theorem values_of_shown {outcome : Except Failure (List Decl)} {told : List Diagnostic}
    (hshown : (context.aside symbol).shown = (outcome, told)) :
    context.values symbol = kept outcome :=
  congrArg kept (congrArg Prod.fst hshown)

theorem values_of_isClassLike (hclass : symbol.kind.isClassLike = true) :
    context.values symbol = [] :=
  values_of_shown (shown_aside_classLike hclass)

/-- A symbol comes to nothing, to a variable, or to the overloads of a function. -/
theorem values_cases (context : Context) (symbol : Symbol) :
    (context.values symbol = []) ∨
    (symbol.kind = .global ∧ ∃ global, (context.global symbol).outcome = .ok global ∧
      context.values symbol = [.global global]) ∨
    (symbol.kind = .function ∧ ∃ built, (context.function symbol).outcome = .ok built ∧
      context.values symbol = built.map .signature) := by
  cases hkind : symbol.kind with
  | global =>
    rw [values_of_shown (shown_aside_global hkind)]
    cases (context.global symbol).outcome with
    | error failure => exact Or.inl rfl
    | ok global => exact Or.inr (Or.inl ⟨rfl, global, rfl, rfl⟩)
  | function =>
    rw [values_of_shown (shown_aside_function hkind)]
    cases (context.function symbol).outcome with
    | error failure => exact Or.inl rfl
    | ok built => exact Or.inr (Or.inr ⟨rfl, built, rfl, rfl⟩)
  | classType => exact Or.inl (values_of_isClassLike (hkind ▸ rfl))
  | interfaceType => exact Or.inl (values_of_isClassLike (hkind ▸ rfl))

/-- **What a symbol comes to** stands on its own, under keys of its kind made of its name. -/
theorem key?_of_mem_values (h : decl ∈ context.values symbol) :
    (symbol.kind = .global ∧ decl.key? = some (.global symbol.name)) ∨
    (symbol.kind = .function ∧ ∃ overload, decl.key? = some (.function symbol.name overload)) := by
  rcases values_cases context symbol with hnil | ⟨hkind, global, hglobal, heq⟩ |
    ⟨hkind, built, hbuilt, heq⟩
  · rw [hnil] at h
    exact absurd h List.not_mem_nil
  · rw [heq, List.mem_singleton] at h
    subst h
    refine Or.inl ⟨hkind, ?_⟩
    rw [Decl.key?, ident_of_global hglobal]
  · rw [heq] at h
    obtain ⟨signature, hsignature, rfl⟩ := List.mem_map.mp h
    exact Or.inr ⟨hkind, _, (overloads_of_function hbuilt).1 signature hsignature⟩

/-- No symbol comes to a declaration with the key of a type. -/
theorem key?_ne_type {symbol : Symbol} (hdecl : decl ∈ context.values symbol) (name : String) :
    decl.key? ≠ some (.type name) := by
  rcases key?_of_mem_values hdecl with ⟨-, hkey⟩ | ⟨-, overload, hkey⟩
  · rw [hkey]
    rintro ⟨⟩
  · rw [hkey]
    rintro ⟨⟩

/-- **No two declarations of a symbol have the same key.** -/
theorem nodup_keys_values (context : Context) (symbol : Symbol) :
    ((context.values symbol).map Decl.key?).Nodup := by
  rcases values_cases context symbol with hnil | ⟨-, global, -, heq⟩ | ⟨-, built, hbuilt, heq⟩
  · rw [hnil]
    exact .nil
  · rw [heq]
    exact List.nodup_singleton _
  · obtain ⟨hkeys, hpairwise⟩ := overloads_of_function hbuilt
    rw [heq, List.map_map]
    have hmap : built.map (Decl.key? ∘ Decl.signature) =
        (built.map Decl.Signature.overload).map fun overload =>
          some (.function symbol.name overload) := by
      rw [List.map_map]
      exact List.map_congr_left hkeys
    rw [hmap]
    exact List.Nodup.map (fun a b hkey => by cases hkey; rfl) (hpairwise.imp ne_of_lt)

/-! ### All values -/

/-- The types among some declarations. -/
def types (decls : List Decl) : List Decl.TypeDecl :=
  decls.filterMap fun
    | .type type => some type
    | _ => none

theorem mem_types_iff {decls : List Decl} {type : Decl.TypeDecl} :
    type ∈ types decls ↔ .type type ∈ decls := by
  rw [types, List.mem_filterMap]
  constructor
  · rintro ⟨decl, hdecl, htype⟩
    cases decl with
    | type other => exact Option.some.inj htype ▸ hdecl
    | _ => cases htype
  · exact fun hdecl => ⟨_, hdecl, rfl⟩

/-- Types followed by declarations that are none. -/
theorem types_append {built : List Decl.TypeDecl} {values : List Decl}
    (hvalues : ∀ decl ∈ values, ∀ type, decl ≠ .type type) :
    types (built.map .type ++ values) = built := by
  have hnone : types values = [] := by
    refine List.filterMap_eq_nil_iff.mpr fun decl hdecl => ?_
    cases decl with
    | type type => exact absurd rfl (hvalues _ hdecl type)
    | _ => rfl
  have htypes : types (built.map .type) = built := by
    rw [types, List.filterMap_map]
    exact List.filterMap_some
  rw [types, List.filterMap_append]
  change types _ ++ types _ = _
  rw [htypes, hnone, List.append_nil]

/-- **The declarations of all turns** are those that the symbols come to, one after the other. -/
theorem Turns.values_eq {state last : State context.table.size} {refs : List context.Ref}
    {decls : List Decl} (h : context.Turns state refs decls last) (hindexed : context.Indexed) :
    decls = refs.flatMap fun ref => context.values (context.symbol ref) := by
  induction h with
  | nil => rfl
  | cons _ hturn _ ih =>
    rw [List.flatMap_cons, ← ih]
    cases hturn with
    | aside => rfl
    | request hfirst => rw [values_of_isClassLike (hindexed.isClassLike_of_isFirst hfirst)]

namespace Assembles

variable {assembled : Assembled} {decls : List Decl} {last : State context.table.size}
  (h : context.Assembles assembled decls last)

include h

theorem mem_values_iff (hindexed : context.Indexed) :
    decl ∈ decls ↔ ∃ symbol ∈ context.table.symbols.toList, decl ∈ context.values symbol := by
  rw [h.turns.values_eq hindexed, List.mem_flatMap, ← map_symbol_finRange]
  simp

theorem type_notMem (hindexed : context.Indexed) (type : Decl.TypeDecl) : .type type ∉ decls := by
  intro hvalue
  obtain ⟨symbol, -, hvalue⟩ := (h.mem_values_iff hindexed).mp hvalue
  exact key?_ne_type hvalue _ rfl

theorem type_mem_iff (hindexed : context.Indexed) (type : Decl.TypeDecl) :
    .type type ∈ assembled.decls ↔ type ∈ last.built.toList := by
  rw [h.decls_eq, List.mem_append, List.mem_map_of_injective fun _ _ => Decl.type.inj]
  exact or_iff_left (h.type_notMem hindexed type)

theorem types_eq (hindexed : context.Indexed) : types assembled.decls = last.built.toList := by
  rw [h.decls_eq]
  refine types_append fun decl hdecl type heq => ?_
  exact h.type_notMem hindexed type (heq ▸ hdecl)

/-- **The types of a module** are those that the first types of their names declare. -/
theorem type_mem_decls_iff (hindexed : context.Indexed) {type : Decl.TypeDecl} :
    .type type ∈ assembled.decls ↔ ∃ ref,
      context.table.lookupType? type.ident.foreign = some ref ∧ context.Declares ref type := by
  obtain ⟨final, hends⟩ := h.ends
  refine ⟨hends.exists_declares, ?_⟩
  rintro ⟨ref, hlookup, htype⟩
  have hclass := hindexed.isClassLike_of_isFirst (hindexed.isFirst hlookup)
  have hwanted : context.Wanted (context.listed none) assembled.decls type.ident.foreign :=
    Or.inl ⟨ref, List.mem_finRange ref, hclass, hindexed.name_eq hlookup⟩
  exact (hends.mem_decls hwanted hlookup htype).1

/-- **A module** is its types, followed by the declarations of the other symbols. -/
theorem decls_eq_append (hindexed : context.Indexed) :
    assembled.decls = (types assembled.decls).map .type ++ decls := by
  rw [h.types_eq hindexed]
  exact h.decls_eq

end Assembles

end Context

end Bindery.Assembly
