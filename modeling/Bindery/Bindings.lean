import Bindery.Assembly.Module
import Bindery.Emission

/-!
# Generating bindings

A generation run takes a symbol table and a configuration, builds the module of the
listed symbols and writes it in a safe order. `Bindery.generate` is the whole run.
-/

namespace Bindery

/-- **The bindings of a module**. -/
structure Bindings where
  /-- The Nim code. -/
  text : String
  /-- What was left out, and how the run went. -/
  report : Report
  /-- How many declarations there are in the code. -/
  emitted : Nat
  deriving DecidableEq, Repr

/-- **The bindings of the listed symbols of a table**: so many of the first ones, or
all. -/
def generate (table : SymbolTable) (config : Config) (count : Option Nat) :
    Except Failure Bindings := do
  let context : Assembly.Context := ⟨table, config⟩
  let listed := context.listed count
  let assembled ← context.assemble listed
  let emission := emit assembled.decls
  let report := assembled.report ++ emission.report
  let summary := "emitting " ++ toString emission.decls.length ++ " declarations from " ++
    toString listed.length ++ " symbols (" ++ toString report.diagnostics.length ++ " diagnostics)"
  return {
    text := Emission.render table.sources emission.decls
    report := report ++ .info summary
    emitted := emission.decls.length }

end Bindery
