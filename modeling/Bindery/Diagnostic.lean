/-!
# What a run reports

A **diagnostic** tells the caller what was left out of the bindings: a single
declaration or member, or a group of declarations that need each other. The
**log** tells how the run went; every diagnostic is in it as a warning, among
records of lesser weight. A `Bindery.Report` is the two together, and what happens
later is appended to it.
-/

namespace Bindery

/-! ### Diagnostics -/

/-- What a diagnostic is about. -/
inductive Diagnostic.Kind where
  /-- A single declaration or member was left out. -/
  | skipped
  /-- A group of mutually dependent declarations was left out. -/
  | cycle
  deriving DecidableEq, Repr

/-- **One line of the report**. -/
structure Diagnostic where
  kind : Diagnostic.Kind
  message : String
  deriving DecidableEq, Repr

namespace Diagnostic

/-- A declaration or member was left out. -/
def skipped (message : String) : Diagnostic := ⟨.skipped, message⟩

/-- The declarations with these names were left out, as they need each other. -/
def cycle (names : List String) : Diagnostic :=
  ⟨.cycle, "dropping dependency cycle: " ++ String.intercalate ", " names⟩

/-- The line as it is shown. -/
def line (diagnostic : Diagnostic) : String := "warning: " ++ diagnostic.message

end Diagnostic

/-! ### The log -/

/-- The weight of a log record. -/
inductive Log.Level where
  | debug
  | info
  | warn
  deriving DecidableEq, Repr

/-- **One record of the log**. -/
structure Log.Record where
  level : Log.Level
  text : String
  deriving DecidableEq, Repr

/-- The records of a run, in order. -/
abbrev Log := List Log.Record

namespace Log

/-- A record of how the run goes. -/
def debug (text : String) : Record := ⟨.debug, text⟩

/-- A record of what the run came to. -/
def info (text : String) : Record := ⟨.info, text⟩

/-- A record of something left out. -/
def warn (text : String) : Record := ⟨.warn, text⟩

end Log

/-! ### Reports -/

/-- **What is reported of a run or of a part of it**. -/
structure Report where
  diagnostics : List Diagnostic
  log : Log
  deriving DecidableEq, Repr

namespace Report

/-- Nothing is reported. -/
def empty : Report := ⟨[], []⟩

instance : EmptyCollection Report := ⟨empty⟩

instance : Inhabited Report := ⟨empty⟩

/-- What is reported of two parts, the first before the second. -/
def append (first second : Report) : Report :=
  ⟨first.diagnostics ++ second.diagnostics, first.log ++ second.log⟩

instance : Append Report := ⟨append⟩

/-- A record of how the run goes. -/
def debug (text : String) : Report := ⟨[], [Log.debug text]⟩

/-- A record of what the run came to. -/
def info (text : String) : Report := ⟨[], [Log.info text]⟩

/-- A diagnostic, which is also a warning in the log. -/
def ofDiagnostic (diagnostic : Diagnostic) : Report :=
  ⟨[diagnostic], [Log.warn diagnostic.message]⟩

/-- Something was left out, for this reason. -/
def skipped (message : String) : Report := ofDiagnostic (.skipped message)

/-- What is reported of several parts, in order. -/
def concat (reports : List Report) : Report := reports.foldr append empty

end Report

end Bindery
