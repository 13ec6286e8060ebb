/-!
# The words of the command line

A `Bindery.Command.Job` says which symbol table to read and what to do with its
bindings. It is read off the words of the command line from left to right
(`Bindery.Command.Request.ofWords`), and the first word that does not fit decides
the `Bindery.Command.UsageError`.

An option is written with its name, `--deny NAME` or `--deny=NAME`, or with a
letter, `-o FILE`, `-oFILE` or `-o=FILE`; letters can share a word, as in
`-qo FILE`. A value in a word of its own must not look like an option. The word
`--` ends the options, and `-` alone is an ordinary word.
-/

namespace Bindery.Command

/-! ### What is asked for -/

/-- The symbols that are described before the bindings are generated. -/
structure Introspection where
  /-- What their names begin with. -/
  beginning : String
  /-- Whether a symbol is also shown in full. -/
  full : Bool
  deriving DecidableEq, Repr

/-- **One run of the command**. -/
structure Job where
  /-- The path of the symbol table. -/
  input : String
  /-- Whether to say nothing about what is left out. -/
  quiet : Bool
  /-- Which symbols to describe. -/
  introspection : Option Introspection
  /-- Names to leave out, besides those that are always left out. -/
  deny : List String
  /-- The path to which the bindings are written; they are printed if there is none. -/
  output : Option String
  deriving DecidableEq, Repr

/-- What the words of the command line ask for. -/
inductive Request where
  | generate (job : Job)
  | version
  | help
  deriving DecidableEq, Repr

/-! ### What can be wrong -/

/-- Why the words of the command line make no sense. -/
inductive UsageError where
  /-- There is no option of this name. -/
  | unknownOption (spelling : String)
  /-- An option that may be given once is given again. -/
  | repeatedOption (spelling : String)
  /-- The value of an option is missing. -/
  | missingValue (spelling : String)
  /-- The value of an option is empty, but must not be. -/
  | emptyValue (spelling : String)
  /-- A value is given to an option that takes none. -/
  | unexpectedValue (spelling value : String)
  /-- A second input is given. -/
  | surplusInput (input : String)
  /-- The path of the input is empty. -/
  | emptyInput
  /-- No input is given. -/
  | missingInput
  /-- Symbols are to be shown in full, but none are to be described. -/
  | dumpWithoutDebug
  deriving DecidableEq, Repr

namespace UsageError

/-- The error in words. -/
def message : UsageError → String
  | unknownOption spelling => "there is no option " ++ spelling
  | repeatedOption spelling => "the option " ++ spelling ++ " may be given only once"
  | missingValue spelling => "the option " ++ spelling ++ " needs a value"
  | emptyValue spelling => "the value of the option " ++ spelling ++ " is empty"
  | unexpectedValue spelling value =>
    "the option " ++ spelling ++ " takes no value, but is given " ++ value
  | surplusInput input => "there is a second input, " ++ input
  | emptyInput => "the path of the input is empty"
  | missingInput => "there is no input"
  | dumpWithoutDebug => "the option --dump needs the option --debug"

end UsageError

/-! ### Options -/

/-- The options that take no value. -/
inductive Flag where
  | quiet
  | dump
  | version
  | help
  deriving DecidableEq, Repr

/-- The options that take a value. -/
inductive Setting where
  | debug
  | deny
  | output
  deriving DecidableEq, Repr

/-- An option, by whether it takes a value. -/
inductive Switch where
  | flag (flag : Flag)
  | setting (setting : Setting)
  deriving DecidableEq, Repr

namespace Switch

/-- The option of this name. -/
def ofName? : String → Option Switch
  | "quiet" => some (flag .quiet)
  | "dump" => some (flag .dump)
  | "version" => some (flag .version)
  | "help" => some (flag .help)
  | "debug" => some (setting .debug)
  | "deny" => some (setting .deny)
  | "output" => some (setting .output)
  | _ => none

/-- The option of this letter. -/
def ofLetter? : Char → Option Switch
  | 'q' => some (flag .quiet)
  | 'V' => some (flag .version)
  | 'h' => some (flag .help)
  | 'o' => some (setting .output)
  | _ => none

end Switch

/-- The name of an option with a value, as it is written. -/
def Setting.spelling : Setting → String
  | debug => "--debug"
  | deny => "--deny"
  | output => "--output"

/-! ### What the words read so far say -/

/-- **What the words read so far say**. -/
structure Given where
  input : Option String
  quiet : Bool
  debug : Option String
  dump : Bool
  deny : List String
  output : Option String
  deriving DecidableEq, Repr

namespace Given

/-- No words are read. -/
def nothing : Given := ⟨none, false, none, false, [], none⟩

/-- The input is given: once, and with a path. -/
def withInput (given : Given) (path : String) : Except UsageError Given :=
  if given.input.isSome then .error (.surplusInput path)
  else if path.isEmpty then .error .emptyInput
  else .ok { given with input := some path }

/-- An option is given its value. Only names to leave out can be given repeatedly,
and only a path must not be empty. -/
def assign (given : Given) (setting : Setting) (value : String) : Except UsageError Given :=
  match setting with
  | .deny => .ok { given with deny := given.deny ++ [value] }
  | .debug =>
    if given.debug.isSome then .error (.repeatedOption setting.spelling)
    else .ok { given with debug := some value }
  | .output =>
    if value.isEmpty then .error (.emptyValue setting.spelling)
    else if given.output.isSome then .error (.repeatedOption setting.spelling)
    else .ok { given with output := some value }

/-- All words are read. -/
def request (given : Given) : Except UsageError Request := do
  let some input := given.input | .error .missingInput
  if given.dump && given.debug.isNone then throw .dumpWithoutDebug
  return .generate {
    input
    quiet := given.quiet
    introspection := given.debug.map fun beginning => ⟨beginning, given.dump⟩
    deny := given.deny
    output := given.output }

end Given

/-! ### Words -/

/-- What a word comes to, given the words before it. -/
inductive Step where
  /-- The word is complete. -/
  | next (given : Given)
  /-- The next word is the value of an option. -/
  | valueOf (setting : Setting) (given : Given)
  /-- The words from here on are no options. -/
  | inputs (given : Given)
  /-- The other words do not matter. -/
  | settled (request : Request)
  deriving DecidableEq, Repr

namespace Given

/-- An option without a value is given. -/
def raise (given : Given) (flag : Flag) : Except UsageError Step :=
  match flag with
  | .quiet =>
    if given.quiet then .error (.repeatedOption "--quiet")
    else .ok (.next { given with quiet := true })
  | .dump =>
    if given.dump then .error (.repeatedOption "--dump")
    else .ok (.next { given with dump := true })
  | .version => .ok (.settled .version)
  | .help => .ok (.settled .help)

/-- An option is given by its name, perhaps with a value in the same word. -/
def named (given : Given) (name : String) (value? : Option String) : Except UsageError Step :=
  match Switch.ofName? name, value? with
  | none, _ => .error (.unknownOption ("--" ++ name))
  | some (.flag flag), none => given.raise flag
  | some (.flag _), some value => .error (.unexpectedValue ("--" ++ name) value)
  | some (.setting setting), none => .ok (.valueOf setting given)
  | some (.setting setting), some value => .next <$> given.assign setting value

/-- Options are given by their letters. What follows the letter of an option with a
value is that value. -/
def lettered (given : Given) : List Char → Except UsageError Step
  | [] => .ok (.next given)
  | letter :: rest =>
    match Switch.ofLetter? letter with
    | none => .error (.unknownOption (String.ofList ['-', letter]))
    | some (.flag flag) => do
      match ← given.raise flag with
      | .next given => given.lettered rest
      | step => return step
    | some (.setting setting) =>
      match rest with
      | [] => .ok (.valueOf setting given)
      | '=' :: value => .next <$> given.assign setting (String.ofList value)
      | value => .next <$> given.assign setting (String.ofList value)

/-- One word is given, where an option may stand. -/
def word (given : Given) (word : String) : Except UsageError Step :=
  match word.toList with
  | ['-', '-'] => .ok (.inputs given)
  | '-' :: '-' :: option =>
    let name := String.ofList (option.takeWhile (· ≠ '='))
    match option.dropWhile (· ≠ '=') with
    | _ :: value => given.named name (some (String.ofList value))
    | [] => given.named name none
  | '-' :: letter :: letters => given.lettered (letter :: letters)
  | _ => .next <$> given.withInput word

end Given

/-- Whether a word looks like an option, and so is not the value of one. -/
def looksLikeOption (word : String) : Bool :=
  match word.toList with
  | '-' :: _ :: _ => true
  | _ => false

/-! ### Reading the words -/

namespace Request

/-- What words ask for that come after others. -/
def afterWords : Given → List String → Except UsageError Request
  | given, [] => given.request
  | given, word :: rest => do
    match ← given.word word with
    | .next given => afterWords given rest
    | .inputs given => (← rest.foldlM Given.withInput given).request
    | .settled request => return request
    | .valueOf setting given =>
      match rest with
      | [] => throw (.missingValue setting.spelling)
      | value :: rest =>
        if looksLikeOption value then throw (.missingValue setting.spelling)
        else afterWords (← given.assign setting value) rest

/-- **What the words of the command line ask for**. -/
def ofWords (words : List String) : Except UsageError Request := afterWords .nothing words

end Request

end Bindery.Command
