import Bindery.Command.Outcome

/-!
# The command line

The program reaches the files of the machine, prints what a run of the command comes
to and ends with its code.
-/

namespace Bindery.Command

/-- The error of the operating system, by its number where that is known. -/
def FileError.ofSystem (error : IO.Error) : FileError :=
  match error with
  | .noFileOrDirectory _ _ _ => .notFound
  | .noSuchThing _ number reason => ofNumber number reason
  | .inappropriateType _ number reason => ofNumber number reason
  | .invalidArgument _ number reason => ofNumber number reason
  | .permissionDenied _ number reason => ofNumber number reason
  | .resourceExhausted _ number reason => ofNumber number reason
  | error => .other (toString error) 0
where
  /-- The error of this number. -/
  ofNumber (number : UInt32) (reason : String) : FileError :=
    [FileError.notFound, .notDirectory, .isDirectory, .nameTooLong, .noSpace].find?
      (·.number = number.toNat) |>.getD (.other reason number.toNat)

/-- The files of the machine. -/
def machine : Files IO where
  read path := do
    try return .ok (← IO.FS.readBinFile path)
    catch error => return .error (.ofSystem error)
  write path text := do
    try return .ok (← IO.FS.writeFile path text)
    catch error => return .error (.ofSystem error)

end Bindery.Command

/-- Run the command on the words of the command line. -/
def main (words : List String) : IO UInt32 := do
  let outcome ← Bindery.Command.run Bindery.Command.machine words
  IO.eprint outcome.err
  IO.print outcome.out
  return outcome.code
