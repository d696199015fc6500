/-!
# Directories in memory

A working directory as a list of named entries, and what reading a path in it gives.  A path is a list of parts
between slashes, and reading it is a walk: each part is a step from the directory reached so far, and a step
from a file is refused.  An empty part and a single point stay, two points go to the parent, and any other part
is a name that has to be there.

The directories above the working one are known to exist, and nothing else is known to be in them.  A path that
begins with a slash starts there.

## Main definitions

* `ReadError`: why a file cannot be read.
* `Directory.step`: one step of a walk.
* `Directory.read`: the text of a file.
-/

namespace Braceless

namespace CommandLine

/-- Why a file cannot be read. -/
inductive ReadError where
  | notFound
  | isDirectory
  | notDirectory
  | nameTooLong
  | notText
  /-- Any other reason. -/
  | other (reason : String)
deriving DecidableEq, Repr

/-- A reason in prose. -/
def ReadError.message : ReadError → String
  | notFound => "No such file or directory (os error 2)"
  | isDirectory => "Is a directory (os error 21)"
  | notDirectory => "Not a directory (os error 20)"
  | nameTooLong => "File name too long (os error 36)"
  | notText => "stream did not contain valid UTF-8"
  | other reason => reason

/-- The reason that the system gives by number, if it is one of the common ones. -/
def ReadError.ofCode? : Nat → Option ReadError
  | 2 => some notFound
  | 20 => some notDirectory
  | 21 => some isDirectory
  | 36 => some nameTooLong
  | _ => none

/-- The text of the contents of a file. -/
def decode (contents : ByteArray) : Except ReadError String :=
  match String.fromUTF8? contents with
  | some text => .ok text
  | none => .error .notText

/-- What a name in a directory stands for. -/
inductive Entry where
  | file (contents : ByteArray)
  | directory

/-- Named entries, of which the last one of a name counts.  A name with slashes lies in directories that are
there for its sake. -/
structure Directory where
  entries : List (String × Entry)

/-! ## Walks -/

/-- Where a walk stands. -/
inductive Place where
  /-- In a directory above the working one. -/
  | above
  /-- In the directory that the names lead to from the working one. -/
  | inside (names : List String)
  /-- At a file. -/
  | file (contents : ByteArray)

/-- The directory around a place.  Going up from above the working directory stays above it. -/
def Place.parent : Place → Place
  | inside names => if names.isEmpty then above else inside names.dropLast
  | _ => above

/-- The most bytes that a name may have. -/
def maxNameSize : Nat := 255

/-- The most bytes that a path may have. -/
def maxPathSize : Nat := 4095

/-- The names of an entry, from the working directory on. -/
def entryNames (name : String) : List String :=
  (name.splitOn "/").filter fun part => part != "" && part != "."

namespace Directory

/-- The place that names lead to from the working directory. -/
def place? (d : Directory) (names : List String) : Option Place :=
  let known : List (List String × Entry) :=
    d.entries.reverse.map fun entry => (entryNames entry.1, entry.2)
  match known.find? fun entry => entry.1 == names with
  | some (_, .file contents) => some (.file contents)
  | some (_, .directory) => some (.inside names)
  | none =>
    if known.any fun entry => names.isPrefixOf entry.1 then some (.inside names) else none

/-- What a name stands for at a place. -/
def child? (d : Directory) : Place → String → Option Place
  | .inside names, name => d.place? (names ++ [name])
  | _, _ => none

/-- A step to a name.  Whether the name is too long shows only where it is looked for. -/
def enter (d : Directory) (place : Place) (name : String) : Except ReadError Place :=
  if name.utf8ByteSize > maxNameSize then .error .nameTooLong
  else
    match d.child? place name with
    | some next => .ok next
    | none => .error .notFound

/-- One step of a walk. -/
def step (d : Directory) (place : Place) (part : String) : Except ReadError Place :=
  match place, part with
  | .file _, _ => .error .notDirectory
  | place, "" => .ok place
  | place, "." => .ok place
  | place, ".." => .ok place.parent
  | place, name => d.enter place name

/-- Where the walk along a path starts. -/
def origin (path : String) : Place :=
  if path.toList.head? == some '/' then .above else .inside []

/-- The text of the file at a path. -/
def read (d : Directory) (path : String) : Except ReadError String :=
  if path.isEmpty then .error .notFound
  else if path.utf8ByteSize > maxPathSize then .error .nameTooLong
  else
    match (path.splitOn "/").foldlM d.step (origin path) with
    | .ok (.file contents) => decode contents
    | .ok _ => .error .isDirectory
    | .error e => .error e

end Directory

end CommandLine

end Braceless
