import Bindery.Bindings
import Bindery.Command.Arguments
import Bindery.Command.Files
import Bindery.Symbol.Description
import Bindery.Symbol.Document

/-!
# Running the command

`Bindery.Command.run` is the command as a whole: from the words of the command line
and a way to reach files to what is printed and how the run ends. What a job comes to
before anything is written is `Bindery.Command.Job.work`; it needs no more of the
files than the bytes of the input.
-/

namespace Bindery.Command

/-! ### How a run ends -/

/-- **How a run ends**. -/
structure Outcome where
  /-- Zero if all went well. -/
  code : UInt32
  /-- What is printed as the result. -/
  out : String
  /-- What is printed beside the result. -/
  err : String
  deriving DecidableEq, Repr

/-- The name of the command and its version. -/
def versionText : String := "nimbindc 0.1.0\n"

/-- How the command is used. -/
def helpText : String :=
  "generate Nim bindings from a resolved symbol table\n\n" ++
  "Usage: nimbindc [OPTIONS] INPUT\n\n" ++
  "  INPUT                the symbol table to translate\n\n" ++
  "  -q, --quiet          say nothing about what is left out\n" ++
  "      --debug PREFIX   describe the symbols whose names begin with PREFIX\n" ++
  "      --dump           with --debug, also show these symbols in full\n" ++
  "      --deny NAME      leave out this name as well\n" ++
  "  -o, --output FILE    write the bindings here instead of printing them\n" ++
  "  -h, --help           print this help\n" ++
  "  -V, --version        print the version\n"

/-- The words of the command line make no sense. -/
def Outcome.ofUsageError (error : UsageError) : Outcome :=
  ⟨2, "", "Error: " ++ error.message ++ "\n\n" ++ helpText⟩

/-- A text whose lines, except the first, are set off to the right. -/
def indented (text : String) : String :=
  String.ofList (text.toList.flatMap fun c => if c = '\n' then ['\n', ' ', ' ', ' ', ' '] else [c])

/-- What is printed when something could not be done. -/
def complaint (undone : String) (failure : Failure) : String :=
  "Error: " ++ undone ++ "\n\nCaused by:\n    " ++ indented failure.message ++ "\n"

/-- A run ends early, after printing this much. -/
def Outcome.failed (err undone : String) (failure : Failure) : Outcome :=
  ⟨1, "", err ++ complaint undone failure⟩

/-! ### What a job comes to -/

/-- What a job comes to before the bindings are printed or written. -/
structure Work where
  /-- The bindings. -/
  text : String
  /-- What is printed beside them. -/
  err : String
  deriving DecidableEq, Repr

namespace Job

/-- The symbol table of a job, from the bytes of its input. -/
def table (job : Job) (bytes : Except FileError ByteArray) : Except Failure SymbolTable :=
  match bytes with
  | .error error => .error (.load job.input error.message)
  | .ok bytes =>
    match String.fromUTF8? bytes with
    | none => .error (.load job.input "stream did not contain valid UTF-8")
    | some text => SymbolTable.ofDocument job.input text

/-- The configuration of a job. -/
def config (job : Job) : Config := Config.standard.deny job.deny

/-- The descriptions that a job asks for. -/
def descriptions (job : Job) (table : SymbolTable) : String :=
  match job.introspection with
  | none => ""
  | some introspection =>
    String.join ((table.beginning introspection.beginning).map fun symbol =>
      table.describe symbol introspection.full)

/-- The lines that tell what is left out, unless the job is a quiet one. -/
def remarks (job : Job) (report : Report) : String :=
  if job.quiet then ""
  else String.join (report.diagnostics.map fun diagnostic => diagnostic.line ++ "\n")

/-- What a job comes to, or how its run ends early. -/
def work (job : Job) (bytes : Except FileError ByteArray) : Except Outcome Work :=
  match job.table bytes with
  | .error failure => .error (.failed "" ("couldn't load " ++ job.input) failure)
  | .ok table =>
    let descriptions := job.descriptions table
    match generate table job.config none with
    | .error failure => .error (.failed descriptions "failed to generate bindings" failure)
    | .ok bindings => .ok ⟨bindings.text, descriptions ++ job.remarks bindings.report⟩

/-! ### The run -/

/-- Do a job. -/
def run {m : Type → Type} [Monad m] (files : Files m) (job : Job) : m Outcome := do
  match job.work (← files.read job.input) with
  | .error outcome => return outcome
  | .ok work =>
    match job.output with
    | none => return ⟨0, work.text, work.err⟩
    | some path =>
      match ← files.write path work.text with
      | .ok () => return ⟨0, "", work.err⟩
      | .error error =>
        return .failed work.err ("couldn't write " ++ path) (.output error.message)

end Job

/-- **The command**, from the words of its command line. -/
def run {m : Type → Type} [Monad m] (files : Files m) (words : List String) : m Outcome :=
  match Request.ofWords words with
  | .error error => return .ofUsageError error
  | .ok .version => return ⟨0, versionText, ""⟩
  | .ok .help => return ⟨0, helpText, ""⟩
  | .ok (.generate job) => job.run files

end Bindery.Command
