import TypedIsl.CommandLine.Run

/-!
# Directories in memory

Files are kept by the names that lead to them from the directory that a run starts in. A path that
leads through another file's path is a directory. Of what lies outside, nothing is known.
-/

namespace TypedIsl

structure Directory where
  files : List (List String × ByteArray)

/-! ## Paths -/

/-- A path, taken apart at its slashes. -/
structure Path where
  /-- Whether the path starts at the root and not in the current directory. -/
  absolute : Bool
  /-- What is between the slashes, unless it is empty. -/
  steps : List String
  /-- Whether a slash comes last. -/
  closed : Bool

def Path.ofText (text : String) : Path where
  absolute := text.startsWith "/"
  steps := (text.splitOn "/").filter (· ≠ "")
  closed := text.endsWith "/"

/-- The number of bytes that a name may have. -/
def maxNameSize : Nat := 255

/-- The number of bytes that a path may have. -/
def maxPathSize : Nat := 4095

/-- A directory that a path leads to. -/
inductive Location where
  /-- The directory of the run, or one below it. -/
  | inside (names : List String)
  | outside

/-- The directory above. -/
def Location.parent : Location → Location
  | inside [] => outside
  | inside names => inside names.dropLast
  | outside => outside

/-- What a path leads to. -/
inductive Destination where
  | directory
  /-- What has a name in a directory, if there is such a thing. -/
  | entry (location : Location) (name : String)

namespace Directory

def ofList (files : List (String × ByteArray)) : Directory :=
  ⟨files.map fun (path, content) => ((Path.ofText path).steps.filter (· ≠ "."), content)⟩

def file? (directory : Directory) (names : List String) : Option ByteArray :=
  directory.files.lookup names

/-- Whether there is a file below a path. -/
def hasBelow (directory : Directory) (names : List String) : Bool :=
  directory.files.any fun (other, _) => names.isPrefixOf other && names ≠ other

/-- What has a name in a directory. -/
inductive Entry where
  | directory
  | file (names : List String) (content : ByteArray)
  | missing (names : List String)
  | unknown

def entry (directory : Directory) (location : Location) (name : String) : Except FileError Entry :=
  if maxNameSize < name.utf8ByteSize then .error .nameTooLong
  else match location with
    | .outside => .ok .unknown
    | .inside names =>
        let names := names ++ [name]
        if directory.hasBelow names then .ok .directory
        else match directory.file? names with
          | some content => .ok (.file names content)
          | none => .ok (.missing names)

/-- One step from a directory to another one. -/
def enter (directory : Directory) (location : Location) (step : String) :
    Except FileError Location :=
  if step = "." then .ok location
  else if step = ".." then .ok location.parent
  else do
    match ← directory.entry location step, location with
    | .directory, .inside names => return .inside (names ++ [step])
    | .file _ _, _ => throw .notADirectory
    | _, _ => throw .notFound

/-- Follows steps from a directory. All but the last one have to lead to directories. -/
def follow (directory : Directory) (location : Location) :
    List String → Except FileError Destination
  | [] => .ok .directory
  | [step] =>
      if step = "." ∨ step = ".." then .ok .directory else .ok (.entry location step)
  | step :: rest => do
      let location ← directory.enter location step
      directory.follow location rest

def destination (directory : Directory) (text : String) : Except FileError Destination :=
  let path := Path.ofText text
  if maxPathSize < text.utf8ByteSize then .error .nameTooLong
  else directory.follow (if path.absolute then .outside else .inside []) path.steps

/-! ## Reading and writing -/

def read (directory : Directory) (path : String) : Except FileError ByteArray := do
  match ← directory.destination path with
  | .directory => throw .isADirectory
  | .entry location name =>
      match ← directory.entry location name with
      | .directory => throw .isADirectory
      | .file _ content => if (Path.ofText path).closed then throw .notADirectory else return content
      | .missing _ => throw .notFound
      | .unknown => throw .notFound

/-- Replaces the content of a file, or adds the file at the end. -/
def putFile (names : List String) (content : ByteArray) :
    List (List String × ByteArray) → List (List String × ByteArray)
  | [] => [(names, content)]
  | (n, c) :: rest =>
      if n = names then (n, content) :: rest else (n, c) :: putFile names content rest

/-- Writes a file, which no path with a slash at its end can name. What is written outside is not
kept. -/
def write (directory : Directory) (path text : String) : Except FileError Directory := do
  match ← directory.destination path with
  | .directory => throw .isADirectory
  | .entry location name =>
      if (Path.ofText path).closed then throw .isADirectory
      match ← directory.entry location name with
      | .directory => throw .isADirectory
      | .file names _ => return ⟨putFile names text.toUTF8 directory.files⟩
      | .missing names => return ⟨putFile names text.toUTF8 directory.files⟩
      | .unknown => return directory

/-- The files that are new or different, as they are after a run. -/
def changes (before after : Directory) : List (String × ByteArray) :=
  after.files.filterMap fun (names, content) =>
    if (before.file? names).any fun old => old.data == content.data then none
    else some ("/".intercalate names, content)

/-- File operations on a directory that is carried along. -/
def operations : FileOperations (StateM Directory) where
  read path := do return (← get).read path
  write path text := do
    match (← get).write path text with
    | .ok directory => do
        set directory
        return .ok ()
    | .error e => return .error e

end Directory

end TypedIsl
