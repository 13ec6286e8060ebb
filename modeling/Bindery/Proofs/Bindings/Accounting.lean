import Bindery.Proofs.Assembly.Tally
import Bindery.Proofs.Bindings.Run
import Bindery.Proofs.Emission.Tally

/-!
# Every symbol is accounted for

A symbol of the table ends in exactly one way: what it comes to is emitted, or lies on a cycle, or
it is skipped with a diagnostic of its own. So in a run on all symbols the emitted declarations,
the names on cycles and the diagnostics of what is skipped are as many as the symbols count for,
where the overloads of a function that is not denied count one by one
(`Bindery.Bindings.symbols_accounted`). Diagnostics that are told of the members of types come on
top of these.
-/

namespace Bindery.Bindings

open Assembly (Assembled Context State)
open Decl (Key)

/-! ### What symbols count for -/

/-- What all symbols count for, kind by kind. -/
theorem sum_weight (context : Context) (symbols : List Symbol) :
    (symbols.map context.weight).sum =
      symbols.countP (·.kind = .global) + symbols.countP (·.kind.isClassLike) +
        symbols.countP (fun symbol => symbol.kind = .function && context.denies symbol) +
        ((symbols.filter fun symbol => symbol.kind = .function && !context.denies symbol).map
          (·.signatures.length)).sum := by
  induction symbols with
  | nil => rfl
  | cons symbol symbols ih =>
    rw [List.map_cons, List.sum_cons, ih, Context.weight]
    cases hkind : symbol.kind with
    | function =>
      cases hdenied : context.denies symbol with
      | false => simp [hkind, hdenied, Symbol.Kind.isClassLike]; omega
      | true => simp [hkind, hdenied, Symbol.Kind.isClassLike]; omega
    | _ => simp [hkind, Symbol.Kind.isClassLike]; omega

/-- What is assembled stands on its own. -/
theorem key?_ne_none {context : Context} {assembled : Assembled} {values : List Decl}
    {last : State context.table.size} (h : context.Assembles assembled values last)
    (hindexed : context.Indexed) : ∀ decl ∈ assembled.decls, decl.key? ≠ none := by
  intro decl hdecl
  rw [h.decls_eq] at hdecl
  rcases List.mem_append.mp hdecl with htype | hvalue
  · obtain ⟨type, -, rfl⟩ := List.mem_map.mp htype
    exact Option.some_ne_none _
  · obtain ⟨symbol, -, hvalue⟩ := (h.mem_values_iff hindexed).mp hvalue
    rcases Context.key?_of_mem_values hvalue with ⟨-, hkey⟩ | ⟨-, overload, hkey⟩
    · exact hkey ▸ Option.some_ne_none _
    · exact hkey ▸ Option.some_ne_none _

/-- **Every symbol is accounted for, once.** In a run on all symbols of a table the emitted
declarations, the names that are told of as being on cycles, and the diagnostics of what is skipped,
less those that are told of members, are as many as there are variables, classes and interfaces,
denied functions, and overloads of the other functions. The diagnostics about cycles list the names
on them, one cycle after the other, and say no more. -/
theorem symbols_accounted (sources : List String) (symbols : List Symbol) (config : Config) :
    let context : Context := ⟨.ofSymbols sources symbols, config⟩
    ∃ assembled bindings named others, Run context assembled bindings ∧
      named = (Emission.cycles assembled.decls).map (·.map Key.name) ∧
      cycles bindings = named.map (fun names =>
        ⟨.cycle, "dropping dependency cycle: " ++ String.intercalate ", " names⟩) ∧
      (skipped bindings).Perm
        ((Context.types assembled.decls).flatMap context.membersTold ++ others) ∧
      bindings.emitted + (named.map List.length).sum + others.length =
        symbols.countP (·.kind = .global) + symbols.countP (·.kind.isClassLike) +
          symbols.countP (fun symbol => symbol.kind = .function && context.denies symbol) +
          ((symbols.filter fun symbol => symbol.kind = .function && !context.denies symbol).map
            (·.signatures.length)).sum := by
  intro context
  have hindexed : context.Indexed := Context.indexed_ofSymbols sources symbols config
  obtain ⟨assembled, bindings, values, last, hrun, hassembles⟩ := exists_run hindexed
  obtain ⟨others, hperm, hlength⟩ := hassembles.exists_tally hindexed
  have hskips := hassembles.skips hindexed
  have hemit := Emission.length_emit (key?_ne_none hassembles hindexed)
  -- a declaration whose key is there already is skipped as well, like the symbols themselves
  refine ⟨assembled, bindings, _, others ++ (Emission.reused assembled.decls).map
    Emission.reusedDiagnostic, hrun, rfl, ?_, ?_, ?_⟩
  · rw [hrun.cycles_eq hskips, List.map_map]
    rfl
  · rw [hrun.skipped_eq hskips, ← List.append_assoc]
    exact hperm.append_right _
  · have hnamed : ((Emission.cycles assembled.decls).map (·.map Key.name)).map List.length =
        (Emission.cycles assembled.decls).map List.length := by
      rw [List.map_map]
      exact List.map_congr_left fun keys _ => List.length_map Key.name
    have hsum : (symbols.map context.weight).sum =
        (context.table.symbols.toList.map context.weight).sum := rfl
    rw [hnamed, hrun.emitted_eq, ← sum_weight, List.length_append, List.length_map]
    omega

end Bindery.Bindings
