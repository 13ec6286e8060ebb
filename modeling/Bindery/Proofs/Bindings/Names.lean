import Bindery.Proofs.Assembly.Fields
import Bindery.Proofs.Assembly.Moves
import Bindery.Proofs.Bindings.Run
import Bindery.Proofs.Ident.Clashes

/-!
# Names in the bindings

Declarations are told apart by their foreign names. So the types that are emitted have different
foreign names, and so do the fields of a type and of its ancestors. The names in the code need not
be different: they are the same exactly where the foreign names clash
(`Bindery.Bindings.names_apart`), and nothing keeps these out of the bindings
(`Bindery.Bindings.names_clash`).
-/

namespace Bindery.Bindings

open Assembly (Context)
open Assembly.Context (types mem_types_iff exists_assembled_of_read)

/-- **Two identifiers keep apart**: they stand for different foreign names, and they are the same in
the code only where these clash. -/
def KeepApart (reserved : Std.TreeSet String) (a b : Ident) : Prop :=
  a.foreign ≠ b.foreign ∧ (a.name = b.name ↔ Ident.Clash reserved a.foreign b.foreign)

/-- Identifiers of different foreign names keep apart. -/
theorem keepApart_of_ne {reserved : Std.TreeSet String} {a b : Ident}
    (ha : a = .ofForeign reserved a.foreign) (hb : b = .ofForeign reserved b.foreign)
    (hne : a.foreign ≠ b.foreign) : KeepApart reserved a b := by
  refine ⟨hne, ?_⟩
  rw [ha, hb]
  exact Ident.sanitize_eq_iff

variable {decls : List Decl}

/-- **No two types that are emitted have the same foreign name.** -/
theorem pairwise_types_emit : (types (emit decls).decls).Pairwise fun a b =>
    a.ident.foreign ≠ b.ident.foreign := by
  rw [types, List.pairwise_filterMap]
  refine Emission.pairwise_emit.imp fun {a b} h type htype other hother => ?_
  cases a with
  | type first =>
    cases b with
    | type second =>
      obtain rfl := Option.some.inj htype
      obtain rfl := Option.some.inj hother
      exact fun heq => h.1 (congrArg (fun name => some (Decl.Key.type name)) heq)
    | _ => cases hother
  | _ => cases htype

/-- **Names keep apart.** In every run, any two types that are emitted have different foreign names,
and so have any two fields of an emitted type and its ancestors. Their names in the code are the
same exactly where the foreign names clash. -/
theorem names_apart (sources : List String) (symbols : List Symbol) (config : Config)
    (count : Option ℕ) :
    let context : Context := ⟨.ofSymbols sources symbols, config⟩
    ∃ assembled bindings, RunOn context count assembled bindings ∧
      (types (emit assembled.decls).decls).Pairwise
        (fun a b => KeepApart config.reserved a.ident b.ident) ∧
      ∀ type ∈ types (emit assembled.decls).decls,
        type.allFields.Pairwise fun a b => KeepApart config.reserved a.ident b.ident := by
  intro context
  have hindexed : context.Indexed := Context.indexed_ofSymbols sources symbols config
  obtain ⟨assembled, last, harises⟩ := Context.exists_arises hindexed count
  obtain ⟨bindings, hrun⟩ := exists_runOn harises.assemble_eq
  -- whatever is emitted is declared by some symbol
  have hdeclares : ∀ type ∈ types (emit assembled.decls).decls,
      ∃ ref, context.Declares ref type := by
    intro type htype
    have hdecl := Emission.mem_of_mem_emit (mem_types_iff.mp htype)
    obtain ⟨ref, -, hdeclares⟩ := harises.ends.exists_declares hdecl
    exact ⟨ref, hdeclares⟩
  refine ⟨assembled, bindings, hrun, ?_, fun type htype => ?_⟩
  · refine pairwise_types_emit.imp_of_mem fun {a b} ha hb hne => ?_
    obtain ⟨_, ha⟩ := hdeclares a ha
    obtain ⟨_, hb⟩ := hdeclares b hb
    exact keepApart_of_ne (ha.ident_eq hindexed) (hb.ident_eq hindexed) hne
  · obtain ⟨ref, hdeclares⟩ := hdeclares type htype
    have hdistinct := hdeclares.distinctFields hindexed
    refine (List.pairwise_map.mp hdistinct.nodup).imp_of_mem fun {a b} ha hb hne => ?_
    exact keepApart_of_ne (hdistinct.ident_eq a ha) (hdistinct.ident_eq b hb) hne

/-! ### Names that clash -/

section Clashes

/-- Classes of different names: two collapse alike, and of two pairs one gets the mark that the
other one begins with. -/
private def lookalikes : Context :=
  ⟨.ofSymbols [] [((Symbol.ofClass "node_list").withMember
      (.ofField "first_child" .number)).withMember (.ofField "first__child" .string),
    .ofClass "node__list", .ofClass "_tag", .ofClass "zTag", .ofClass "type", .ofClass "xType"],
    .standard⟩

/-- **Names can clash**, be it those of types or those of fields. -/
theorem names_clash : ∃ assembled bindings, RunOn lookalikes none assembled bindings ∧
    ¬ (types (emit assembled.decls).decls).Pairwise (fun a b => a.ident.name ≠ b.ident.name) ∧
    ∃ type ∈ types (emit assembled.decls).decls,
      ¬ type.allFields.Pairwise fun a b => a.ident.name ≠ b.ident.name := by
  have heval : (lookalikes.assemble (lookalikes.listed none)).toOption.map
      (fun assembled => (types (emit assembled.decls).decls).map
        fun type => (type.ident.name, type.allFields.map (·.ident.name))) =
      some [("node_list", ["first_child", "first_child"]), ("node_list", []), ("zTag", []),
        ("zTag", []), ("xType", []), ("xType", [])] := by decide +kernel
  obtain ⟨assembled, hassemble, hnames⟩ := exists_assembled_of_read heval
  obtain ⟨bindings, hrun⟩ := exists_runOn hassemble
  obtain ⟨type, rest, htypes, hfirst, hrest⟩ := List.map_eq_cons_iff.mp hnames
  obtain ⟨hname, hfields⟩ := Prod.mk.inj hfirst
  refine ⟨assembled, bindings, hrun, fun hpairwise => ?_, type, htypes ▸ List.mem_cons_self, ?_⟩
  · obtain ⟨second, _, rfl, hsecond, -⟩ := List.map_eq_cons_iff.mp hrest
    rw [htypes] at hpairwise
    refine (List.pairwise_cons.mp hpairwise).1 second List.mem_cons_self ?_
    rw [hname, (Prod.mk.inj hsecond).1]
  · intro hpairwise
    have hnames := List.pairwise_map.mpr hpairwise
    rw [hfields] at hnames
    exact absurd hnames (by decide)

end Clashes

end Bindery.Bindings
