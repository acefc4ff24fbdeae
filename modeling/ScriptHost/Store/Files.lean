import ScriptHost.Model.Error
import ScriptHost.Store.FileTree

/-!
# Documents as files

The document of an item is the file `<item>.state` in one directory. The
listing takes every entry of the directory whose name has that extension and
a stem that spells an identifier, in whatever way it is spelled.
-/

namespace ScriptHost

structure FileStore where
  dir : String
  deriving DecidableEq, Repr, Inhabited

namespace FileStore

def ioError (e : FileError) : Error := .io e.message

/-- Use a directory for documents, creating it if needed. -/
def «open» (t : FileTree) (dir : String) : Except Error (FileStore × FileTree) :=
  match t.makeDirectories dir with
  | .ok t => .ok (⟨dir⟩, t)
  | .error e => .error (ioError e)

def fileName (item : Uuid) : String := item.text ++ ".state"

def join (dir name : String) : String :=
  if dir.isEmpty || dir.endsWith "/" then dir ++ name else dir ++ "/" ++ name

def path (s : FileStore) (item : Uuid) : String := join s.dir (fileName item)

def size (s : FileStore) (t : FileTree) (item : Uuid) : Except Error (Option Nat) :=
  match t.size (s.path item) with
  | .ok n => .ok (some n)
  | .error .notFound => .ok none
  | .error e => .error (ioError e)

def read (s : FileStore) (t : FileTree) (item : Uuid) : Except Error Bytes :=
  (t.read (s.path item)).mapError ioError

def write (s : FileStore) (t : FileTree) (item : Uuid) (data : Bytes) : Except Error FileTree :=
  (t.write (s.path item) data).mapError ioError

def holds (s : FileStore) (t : FileTree) (item : Uuid) : Bool := (t.size (s.path item)).isOk

def remove (s : FileStore) (t : FileTree) (item : Uuid) : Except Error FileTree :=
  (t.remove (s.path item)).mapError ioError

/-- The stem of a name with the extension `state`: what is before the last point. -/
def stem? (name : String) : Option String :=
  let cs := name.toList
  if [ '.', 's', 't', 'a', 't', 'e' ].isSuffixOf cs && 6 < cs.length then
    some (String.ofList (cs.take (cs.length - 6)))
  else none

def itemOfName? (name : String) : Option Uuid := (stem? name).bind Uuid.parse?

def list (s : FileStore) (t : FileTree) : Except Error (List Uuid) :=
  match t.list s.dir with
  | .ok names => .ok ((names.filterMap itemOfName?).mergeSort Uuid.le)
  | .error e => .error (ioError e)

end FileStore

end ScriptHost
