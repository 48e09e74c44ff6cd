/-
This file says what the program needs of a file system: reading a file as a whole and writing a file
as a whole, either of which may fail. A single directory of files serves as a file system in which
everything can be computed.
-/

namespace ExprDiagram

/-! ### Access to files -/

/-- Why a file cannot be read or written. -/
inductive FileError where
  | notFound
  | isDirectory
  | notDirectory
  | nameTooLong
  /-- Any other reason, in the words of the system. -/
  | other (reason : String)
  deriving DecidableEq

/-- The wording of each error. -/
def FileError.message : FileError → String
  | notFound => "No such file or directory (os error 2)"
  | isDirectory => "Is a directory (os error 21)"
  | notDirectory => "Not a directory (os error 20)"
  | nameTooLong => "File name too long (os error 36)"
  | other reason => reason

/-- Reading and writing files by their paths. -/
structure FileAccess (m : Type → Type) where
  read : String → m (Except FileError ByteArray)
  write : String → ByteArray → m (Except FileError Unit)

/-! ### A directory of files -/

/-- The files of a directory, each with its name. -/
structure Directory where
  files : List (String × ByteArray)

/-- The most bytes that a name can have. -/
def longestName : Nat := 255

/-- The most bytes that a path can have. -/
def longestPath : Nat := 4095

/-- What a path leads to from inside a directory that has no directories in it. A name is looked for
either in the directory (`here`) or in one of the directories around it, up to the root, of whose
contents nothing is known. -/
inductive Place where
  /-- No place at all. -/
  | nowhere
  /-- A path with too many bytes, which is not followed. -/
  | overlong
  /-- The directory itself, or one around it. -/
  | directory
  /-- What has a name; `slash` tells whether the path goes on as if it were a directory. -/
  | entry (here : Bool) (name : String) (slash : Bool)
  /-- Something below what has a name. -/
  | below (here : Bool) (name : String)
  deriving DecidableEq

namespace Place

/-- Where the steps of a path end. A blank step and a single dot stay where they are; two dots lead
to a directory around, and from the root to the root itself. The first name decides, because no name
is that of a directory: a step behind it, be it a dot, is below it. -/
def follow (here : Bool) : List String → Place
  | [] => directory
  | step :: steps =>
    if step = "" ∨ step = "." then follow here steps
    else if step = ".." then follow false steps
    else if steps.all (· = "") then entry here step (!steps.isEmpty)
    else below here step

/-- What a path leads to. A path that begins with a slash starts at the root, any other one in the
directory. -/
def ofPath (path : String) : Place :=
  if path = "" then nowhere
  else if longestPath < path.utf8ByteSize then overlong
  else follow (!path.startsWith "/") (path.splitOn "/")

end Place

namespace Directory

/-- The contents of the file of a name. -/
def lookup? (directory : Directory) (name : String) : Option ByteArray :=
  directory.files.lookup name

/-- The directory after a file has been written: its contents are replaced, or it is added. -/
def put (directory : Directory) (name : String) (contents : ByteArray) : Directory :=
  if (directory.lookup? name).isSome then
    ⟨directory.files.map fun file => if file.1 = name then (name, contents) else file⟩
  else ⟨directory.files ++ [(name, contents)]⟩

/-- The contents of what has a name, which is looked for in the directory or around it. -/
def find (directory : Directory) (here : Bool) (name : String) : Except FileError ByteArray :=
  if longestName < name.utf8ByteSize then .error .nameTooLong
  else if here then ((directory.lookup? name).map .ok).getD (.error .notFound)
  else .error .notFound

/-- The contents of the file at a path. -/
def read (directory : Directory) (path : String) : Except FileError ByteArray :=
  match Place.ofPath path with
  | .nowhere => .error .notFound
  | .overlong => .error .nameTooLong
  | .directory => .error .isDirectory
  | .entry here name slash => do
    let contents ← directory.find here name
    if slash then .error .notDirectory else .ok contents
  | .below here name => do
    let _ ← directory.find here name
    .error .notDirectory

/-- The directory after the file at a path has been written. Nothing is written around it. -/
def write (directory : Directory) (path : String) (contents : ByteArray) :
    Except FileError Directory :=
  match Place.ofPath path with
  | .nowhere => .error .notFound
  | .overlong => .error .nameTooLong
  | .directory => .error .isDirectory
  | .entry here name slash =>
    if slash then .error .isDirectory
    else if longestName < name.utf8ByteSize then .error .nameTooLong
    else if here then .ok (directory.put name contents)
    else .error .notFound
  | .below here name => do
    let _ ← directory.find here name
    .error .notDirectory

/-- Access to the files of a directory that is kept as the state. A file that cannot be written
leaves the directory as it is. -/
def access : FileAccess (StateM Directory) where
  read path := do return (← get).read path
  write path contents := do
    match (← get).write path contents with
    | .ok directory => do set directory; return .ok ()
    | .error error => return .error error

end Directory

end ExprDiagram
