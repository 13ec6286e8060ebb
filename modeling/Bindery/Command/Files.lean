/-!
# Reaching files

`Bindery.Command.Files` is how a run of the command reaches files: it can read one
and write one, and either may fail with a `Bindery.Command.FileError`.
-/

namespace Bindery.Command

/-- Why a file cannot be read or written. -/
inductive FileError where
  /-- There is nothing at the path. -/
  | notFound
  /-- What should be a directory is a file. -/
  | notDirectory
  /-- What should be a file is a directory. -/
  | isDirectory
  /-- The path or a name in it has too many bytes. -/
  | nameTooLong
  /-- There is no room for what is written. -/
  | noSpace
  /-- Another reason of the operating system, with its number. -/
  | other (reason : String) (number : Nat)
  deriving DecidableEq, Repr

namespace FileError

/-- The reason in the words of the operating system. -/
def reason : FileError → String
  | notFound => "No such file or directory"
  | notDirectory => "Not a directory"
  | isDirectory => "Is a directory"
  | nameTooLong => "File name too long"
  | noSpace => "No space left on device"
  | other reason _ => reason

/-- The number under which the operating system knows the reason. -/
def number : FileError → Nat
  | notFound => 2
  | notDirectory => 20
  | isDirectory => 21
  | nameTooLong => 36
  | noSpace => 28
  | other _ number => number

/-- The error in words. -/
def message (error : FileError) : String :=
  error.reason ++ " (os error " ++ toString error.number ++ ")"

end FileError

/-- **A way to reach files**, each by its path. -/
structure Files (m : Type → Type) where
  /-- All of a file. -/
  read (path : String) : m (Except FileError ByteArray)
  /-- Let this text be all of a file. -/
  write (path text : String) : m (Except FileError Unit)

end Bindery.Command
