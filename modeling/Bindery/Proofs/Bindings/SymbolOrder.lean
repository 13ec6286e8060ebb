import Bindery.Proofs.Assembly.SymbolOrder
import Bindery.Proofs.Bindings.Run
import Bindery.Proofs.Emission.Agreement

/-!
# The order of symbols does not decide what is emitted

Which type is built first, and from which side a loop of parents is entered, depends on the order
of the symbols. What is emitted in the end does not, where no symbols clash: a run on the same
symbols in another order writes the same text under each key, and reports the same cycles
(`Bindery.Bindings.run_shuffled`).
-/

namespace Bindery

open Assembly (Assembled Context State)

variable {context other : Context} {assembled assembled' : Assembled} {values values' : List Decl}
  {last : State context.table.size} {last' : State other.table.size}

/-- **The modules of shuffles agree.** -/
theorem Assembly.Context.Shuffle.agree (h : context.Shuffle other)
    (hassembles : context.Assembles assembled values last)
    (hassembles' : other.Assembles assembled' values' last') :
    Emission.Agree assembled.decls assembled'.decls := by
  refine .of_mem_iff (fun decl hdecl decl' hdecl' key hkey hkey' => ?_) fun decl => ?_
  · rw [hassembles.mem_decls_iff h.indexed] at hdecl hdecl'
    exact h.eq_of_key? hdecl hdecl' hkey hkey'
  · rw [hassembles.mem_decls_iff h.indexed, hassembles'.mem_decls_iff h.indexed', h.offers_iff]

/-- Symbols in another order make a shuffle, if none of them clash. -/
theorem Assembly.Context.Shuffle.of_perm (sources : List String) {symbols symbols' : List Symbol}
    (config : Config) (hperm : symbols.Perm symbols')
    (hclash : symbols.Pairwise fun symbol other => ¬ symbol.Clashes other) :
    Context.Shuffle ⟨.ofSymbols sources symbols, config⟩ ⟨.ofSymbols sources symbols', config⟩ where
  indexed := Context.indexed_ofSymbols sources symbols config
  indexed' := Context.indexed_ofSymbols sources symbols' config
  config_eq := rfl
  perm := hperm
  eq_of_clashes := by
    intro symbol hsymbol other hother hboth
    have : Std.Symm fun symbol other : Symbol => ¬ symbol.Clashes other :=
      ⟨fun _ _ hnot hother => hnot hother.symm⟩
    by_contra hne
    exact hclash.forall hsymbol hother hne hboth

namespace Emission

/-- **What is written** of some declarations: the text of each that is emitted, and its key. -/
def written (decls : List Decl) : List (Option Decl.Key × String) :=
  (emit decls).decls.map fun decl => (decl.key?, decl.render)

theorem Agree.mem_written_iff {decls decls' : List Decl} (h : Agree decls decls')
    {entry : Option Decl.Key × String} : entry ∈ written decls ↔ entry ∈ written decls' := by
  rw [written, written, List.mem_map, List.mem_map]
  simp only [h.mem_emit_iff]

end Emission

namespace Bindings

/-- **The order of symbols does not decide what is emitted.** Where no symbols clash, a run on the
same symbols in another order writes the same texts under the same keys, and reports the same
cycles. -/
theorem run_shuffled (sources : List String) {symbols symbols' : List Symbol} (config : Config)
    (hperm : symbols.Perm symbols')
    (hclash : symbols.Pairwise fun symbol other => ¬ symbol.Clashes other) :
    let context : Context := ⟨.ofSymbols sources symbols, config⟩
    let shuffled : Context := ⟨.ofSymbols sources symbols', config⟩
    ∃ assembled assembled' bindings bindings', Run context assembled bindings ∧
      Run shuffled assembled' bindings' ∧
      (∀ entry, entry ∈ Emission.written assembled.decls ↔
        entry ∈ Emission.written assembled'.decls) ∧
      ∀ diagnostic, diagnostic ∈ cycles bindings ↔ diagnostic ∈ cycles bindings' := by
  intro context shuffled
  have hshuffle : context.Shuffle shuffled := .of_perm sources config hperm hclash
  obtain ⟨assembled, bindings, values, last, hrun, hassembles⟩ := exists_run hshuffle.indexed
  obtain ⟨assembled', bindings', values', last', hrun', hassembles'⟩ := exists_run hshuffle.indexed'
  have hagree := hshuffle.agree hassembles hassembles'
  refine ⟨assembled, assembled', bindings, bindings', hrun, hrun', fun entry =>
    hagree.mem_written_iff, fun diagnostic => ?_⟩
  rw [hrun.cycles_eq (hassembles.skips hshuffle.indexed),
    hrun'.cycles_eq (hassembles'.skips hshuffle.indexed'), List.mem_map, List.mem_map]
  simp only [hagree.mem_cycles_iff]

section Sample

/-- A class before its parent, a function of the same name, and two classes that extend each
other. -/
private def shapes : List Symbol :=
  [.extending (.ofClass "Circle") "Shape",
    .ofFunction "Circle" [⟨[⟨"radius", .number⟩], .named "Circle"⟩], .ofClass "Shape",
    .extending (.ofClass "Chicken") "Egg", .extending (.ofClass "Egg") "Chicken"]

theorem shapes_shuffled : shapes.Perm shapes.reverse ∧
    shapes.Pairwise (fun symbol other => ¬ symbol.Clashes other) ∧
      ∃ assembled assembled' bindings bindings',
        Run ⟨.ofSymbols [] shapes, default⟩ assembled bindings ∧
        Run ⟨.ofSymbols [] shapes.reverse, default⟩ assembled' bindings' ∧
        (∀ entry, entry ∈ Emission.written assembled.decls ↔
          entry ∈ Emission.written assembled'.decls) ∧
        ∀ diagnostic, diagnostic ∈ cycles bindings ↔ diagnostic ∈ cycles bindings' := by
  have hperm : shapes.Perm shapes.reverse := (List.reverse_perm shapes).symm
  have hclash : shapes.Pairwise fun symbol other => ¬ symbol.Clashes other := by decide
  exact ⟨hperm, hclash, run_shuffled [] default hperm hclash⟩

end Sample

end Bindings

end Bindery
