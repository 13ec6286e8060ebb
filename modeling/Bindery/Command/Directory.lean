import Bindery.Command.Outcome

/-!
# A directory in memory

A `Bindery.Command.Directory` holds the files at and below the place where the
command runs, and `Bindery.Command.Directory.run` runs the command there.

A path is followed name by name: `.` and the empty name stay, `..` goes up, and any
other name goes down, which only a directory allows. Of what lies outside only the root
and its `dev` and `tmp` are known, and in `dev` the devices that take what is written
(`Bindery.Command.Directory.Device`). A new file outside can be written, but is not
kept.
-/

namespace Bindery.Command

/-- **The files at and below the place where the command runs**. -/
structure Directory where
  /-- What is in each file, by the names on the way to it. -/
  files : List (List String × ByteArray)
  /-- What was written to the device for results. -/
  out : String := ""
  /-- What was written to the device for remarks. -/
  err : String := ""

namespace Directory

/-! ### Places -/

/-- A device, from which nothing can be read. -/
inductive Device where
  /-- It forgets what is written. -/
  | null
  /-- It has no room for anything. -/
  | full
  /-- What is written is printed as a result. -/
  | stdout
  /-- What is written is printed beside the result. -/
  | stderr
  deriving DecidableEq, Repr

/-- The device of this name. -/
def Device.ofName? : String → Option Device
  | "null" => some null
  | "full" => some full
  | "stdout" => some stdout
  | "stderr" => some stderr
  | _ => none

/-- A place in the tree of directories. Names are kept with the last one first. -/
inductive Place where
  /-- Reached by these names from where the command runs. -/
  | inside (names : List String)
  /-- A directory above where the command runs. -/
  | above
  /-- Reached by a name from a directory above. -/
  | aside
  /-- Reached by these names from the root. -/
  | rooted (names : List String)
  deriving DecidableEq, Repr

/-- What there is at a place. -/
inductive Content where
  | directory
  | file (bytes : ByteArray)
  | device (device : Device)
  | nothing

/-- What there is at a place that is reached by these names from the root. -/
def rootedContent : List String → Content
  | [] | ["dev"] | ["tmp"] => .directory
  | ["dev", name] =>
    match Device.ofName? name with
    | some device => .device device
    | none => .nothing
  | _ => .nothing

/-- What there is at a place that is reached by these names from where the command runs.
There is a directory wherever a file lies below. -/
def insideContent (directory : Directory) (names : List String) : Content :=
  match directory.files.lookup names with
  | some bytes => .file bytes
  | none =>
    if names = [] ∨ directory.files.any fun file => names.isPrefixOf file.1 then .directory
    else .nothing

/-- What there is at a place. -/
def content (directory : Directory) : Place → Content
  | .inside names => directory.insideContent names.reverse
  | .above => .directory
  | .aside => .nothing
  | .rooted names => rootedContent names.reverse

/-- The place that holds a place. The root holds itself. -/
def Place.outer : Place → Place
  | inside (_ :: names) => inside names
  | rooted (_ :: names) => rooted names
  | rooted [] => rooted []
  | _ => above

/-- The place of this name in a place. -/
def Place.inner (name : String) : Place → Place
  | inside names => inside (name :: names)
  | rooted names => rooted (name :: names)
  | _ => aside

/-- The most bytes that a name can have. -/
def nameLimit : Nat := 255

/-- The most bytes that a path can have. -/
def pathLimit : Nat := 4095

/-- From a directory, go where a name leads. -/
def enter (place : Place) (name : String) : Except FileError Place :=
  if name = "" ∨ name = "." then .ok place
  else if name = ".." then .ok place.outer
  else if name.utf8ByteSize ≤ nameLimit then .ok (place.inner name)
  else .error .nameTooLong

/-- Whether names can be looked up at a place. -/
def checkDirectory (directory : Directory) (place : Place) : Except FileError Unit :=
  match directory.content place with
  | .directory => .ok ()
  | .file _ | .device _ => .error .notDirectory
  | .nothing => .error .notFound

/-- Go where names lead, one after the other. Every place on the way is a directory, and
so is the last one. -/
def follow (directory : Directory) (place : Place) (names : List String) :
    Except FileError Place :=
  names.foldlM (fun place name => do
    let place ← enter place name
    directory.checkDirectory place
    return place) place

/-! ### Paths -/

/-- A path, cut into its parts. -/
structure Path where
  /-- Where it begins. -/
  start : Place
  /-- The names before the last one. -/
  way : List String
  /-- The last name. -/
  last : String
  /-- Whether a slash follows the last name. -/
  trailing : Bool
  deriving DecidableEq, Repr

/-- Cut a path into its parts, if it is not too long. -/
def Path.ofString (text : String) : Except FileError Path :=
  if text.utf8ByteSize ≤ pathLimit then
    let names := text.splitOn "/"
    let kept := (names.reverse.dropWhile (· = "")).reverse
    .ok {
      start := if text.startsWith "/" then .rooted [] else .inside []
      way := kept.dropLast
      last := kept.getLastD ""
      trailing := kept.length < names.length }
  else .error .nameTooLong

/-! ### Reading and writing -/

/-- All of the file at a path. -/
def read (directory : Directory) (text : String) : Except FileError ByteArray := do
  let path ← Path.ofString text
  let place ← enter (← directory.follow path.start path.way) path.last
  let bytes ←
    match directory.content place with
    | .nothing => throw .notFound
    | .directory => throw .isDirectory
    | .device _ => pure ByteArray.empty
    | .file bytes => pure bytes
  if path.trailing then throw .notDirectory
  return bytes

/-- The directory with this file in it, instead of what had its names. -/
def insert (directory : Directory) (names : List String) (bytes : ByteArray) : Directory :=
  { directory with files := directory.files.filter (·.1 ≠ names) ++ [(names, bytes)] }

/-- What is written to a device. -/
def send (directory : Directory) (text : String) : Device → Except FileError Directory
  | .null => .ok directory
  | .full => .error .noSpace
  | .stdout => .ok { directory with out := directory.out ++ text }
  | .stderr => .ok { directory with err := directory.err ++ text }

/-- Let this text be all of the file at a path. The file need not exist, but what it is in
must. -/
def write (directory : Directory) (path text : String) : Except FileError Directory := do
  let path ← Path.ofString path
  let outer ← directory.follow path.start path.way
  if path.trailing then throw .isDirectory
  let place ← enter outer path.last
  match place, directory.content place with
  | _, .directory => throw .isDirectory
  | _, .device device => directory.send text device
  | .inside names, _ => return directory.insert names.reverse text.toUTF8
  | _, _ => return directory

/-- The files of a directory, reached by their paths. -/
def access : Files (StateM Directory) where
  read path := return (← get).read path
  write path text := do
    match (← get).write path text with
    | .ok directory =>
      set directory
      return .ok ()
    | .error error => return .error error

/-! ### The command -/

/-- **The command**, run in a directory on the words of its command line. What it sends to
the devices is printed as well. -/
def run (directory : Directory) (words : List String) : Outcome × Directory :=
  let (outcome, directory) := Id.run ((Command.run access words).run directory)
  ({ outcome with out := directory.out ++ outcome.out, err := outcome.err ++ directory.err },
    directory)

end Directory

end Bindery.Command
