import ScriptHost.Text.Utf8

/-!
# A tree of files

The files and directories below a working directory, by path. The operations
fail as an operating system would: a missing parent, a file where a directory
is needed, a directory where a file is needed.
-/

namespace ScriptHost

inductive FileError where
  | notFound
  | exists
  | notDirectory
  | isDirectory
  | nameTooLong
  | nameWithNul
  deriving DecidableEq, Repr, Inhabited

namespace FileError

def message : FileError → String
  | notFound => "No such file or directory (os error 2)"
  | .exists => "File exists (os error 17)"
  | notDirectory => "Not a directory (os error 20)"
  | isDirectory => "Is a directory (os error 21)"
  | nameTooLong => "File name too long (os error 36)"
  | nameWithNul => "file name contained an unexpected NUL byte"

end FileError

inductive FileEntry where
  | file (data : Bytes)
  | directory
  deriving DecidableEq, Repr, Inhabited

/-- The names from the working directory down. -/
abbrev Location := List String

structure FileTree where
  entries : List (Location × FileEntry)
  deriving DecidableEq, Repr, Inhabited

namespace FileTree

def empty : FileTree := ⟨[]⟩

/-- The entry at a location; the working directory itself is a directory. -/
def get? (t : FileTree) (loc : Location) : Option FileEntry :=
  if loc.isEmpty then some .directory else t.entries.lookup loc

def erase (t : FileTree) (loc : Location) : FileTree := ⟨t.entries.filter (·.1 != loc)⟩

def set (t : FileTree) (loc : Location) (entry : FileEntry) : FileTree :=
  ⟨(loc, entry) :: (t.erase loc).entries⟩

/-- The names of a path, with `.` and `..` worked out. -/
def locate (path : String) : Location :=
  ((path.splitToList (· == '/')).foldl (fun (names : List String) name =>
    if name = "" ∨ name = "." then names
    else if name = ".." then names.tail
    else name :: names) []).reverse

def checkParents (t : FileTree) (above : Location) : Location → Except FileError Unit
  | [] => .ok ()
  | name :: rest =>
    if 255 < name.utf8ByteSize then .error .nameTooLong
    else if rest.isEmpty then .ok ()
    else
      match t.get? (above ++ [name]) with
      | some .directory => checkParents t (above ++ [name]) rest
      | some (.file _) => .error .notDirectory
      | none => .error .notFound

/-- The location of a path whose parents exist, and what is there. -/
def resolve (t : FileTree) (path : String) : Except FileError (Location × Option FileEntry) :=
  if path.isEmpty then .error .notFound
  else if path.toList.any (·.toNat == 0) then .error .nameWithNul
  else
    let loc := locate path
    match t.checkParents [] loc with
    | .error e => .error e
    | .ok () =>
      match t.get? loc, path.endsWith "/" with
      | some (.file _), true => .error .notDirectory
      | entry, _ => .ok (loc, entry)

/-- What a directory takes up itself. -/
def directorySize : Nat := 4096

def size (t : FileTree) (path : String) : Except FileError Nat :=
  match t.resolve path with
  | .error e => .error e
  | .ok (_, some (.file data)) => .ok data.length
  | .ok (_, some .directory) => .ok directorySize
  | .ok (_, none) => .error .notFound

def read (t : FileTree) (path : String) : Except FileError Bytes :=
  match t.resolve path with
  | .error e => .error e
  | .ok (_, some (.file data)) => .ok data
  | .ok (_, some .directory) => .error .isDirectory
  | .ok (_, none) => .error .notFound

def write (t : FileTree) (path : String) (data : Bytes) : Except FileError FileTree :=
  match t.resolve path with
  | .error e => .error e
  | .ok (_, some .directory) => .error .isDirectory
  | .ok (loc, _) => .ok (t.set loc (.file data))

def remove (t : FileTree) (path : String) : Except FileError FileTree :=
  match t.resolve path with
  | .error e => .error e
  | .ok (loc, some (.file _)) => .ok (t.erase loc)
  | .ok (_, some .directory) => .error .isDirectory
  | .ok (_, none) => .error .notFound

def isChild (parent loc : Location) : Bool :=
  loc.length == parent.length + 1 && parent.isPrefixOf loc

def list (t : FileTree) (path : String) : Except FileError (List String) :=
  match t.resolve path with
  | .error e => .error e
  | .ok (loc, some .directory) =>
    .ok ((t.entries.filter fun e => isChild loc e.1).filterMap fun e => e.1.getLast?)
  | .ok (_, some (.file _)) => .error .notDirectory
  | .ok (_, none) => .error .notFound

def makeFrom (t : FileTree) (above : Location) : Location → Except FileError FileTree
  | [] => .ok t
  | name :: rest =>
    if 255 < name.utf8ByteSize then .error .nameTooLong
    else
      let here := above ++ [name]
      match t.get? here with
      | some .directory => makeFrom t here rest
      | some (.file _) => .error (if rest.isEmpty then .exists else .notDirectory)
      | none => makeFrom (t.set here .directory) here rest

/-- Create a directory and all above it that are missing. -/
def makeDirectories (t : FileTree) (path : String) : Except FileError FileTree :=
  if path.toList.any (·.toNat == 0) then .error .nameWithNul
  else t.makeFrom [] (locate path)

/-- Put an entry at a path, creating what is missing above it. -/
def place (t : FileTree) (path : String) (entry : FileEntry) : FileTree :=
  let loc := locate path
  match entry with
  | .directory => (t.makeFrom [] loc).toOption.getD t
  | .file data => (((t.makeFrom [] loc.dropLast).toOption.getD t).set loc (.file data))

def dropDirectory (t : FileTree) (path : String) : FileTree :=
  let loc := locate path
  ⟨t.entries.filter fun e => !loc.isPrefixOf e.1⟩

/-- The paths of all files, in the order of their bytes. -/
def files (t : FileTree) : List String :=
  (t.entries.filterMap fun (loc, entry) =>
    match entry with
    | .file _ => some ("/".intercalate loc)
    | .directory => none).mergeSort fun a b => a ≤ b

end FileTree

end ScriptHost
