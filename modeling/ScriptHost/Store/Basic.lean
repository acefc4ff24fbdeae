import ScriptHost.Store.Memory
import ScriptHost.Store.Files

/-!
# Where documents are kept

An engine keeps its documents in memory or in a directory of files.
-/

namespace ScriptHost

/-- A store, and for one that keeps files the tree they lie in. -/
inductive DocumentStore where
  | memory (s : MemoryStore)
  | files (s : FileStore) (tree : FileTree)
  deriving DecidableEq, Repr

namespace DocumentStore

instance : Inhabited DocumentStore := ⟨.memory .empty⟩

def isFiles : DocumentStore → Bool
  | memory _ => false
  | files _ _ => true

def size : DocumentStore → Uuid → Except Error (Option Nat)
  | memory s, item => .ok (s.size item)
  | files s t, item => s.size t item

def read : DocumentStore → Uuid → Except Error Bytes
  | memory s, item => s.read item
  | files s t, item => s.read t item

def write : DocumentStore → Uuid → Bytes → Except Error DocumentStore
  | memory s, item, data => .ok (memory (s.write item data))
  | files s t, item, data =>
    match s.write t item data with
    | .ok t => .ok (files s t)
    | .error e => .error e

def holds : DocumentStore → Uuid → Bool
  | memory s, item => (s.get? item).isSome
  | files s t, item => s.holds t item

/-- Nothing is done for an item without a document, which only files report. -/
def remove : DocumentStore → Uuid → Except Error DocumentStore
  | memory s, item => .ok (memory (s.erase item))
  | files s t, item =>
    match s.remove t item with
    | .ok t => .ok (files s t)
    | .error e => .error e

def put (d : DocumentStore) (item : Uuid) (data : Bytes) : DocumentStore :=
  match d.write item data with
  | .ok d => d
  | .error _ => d

end DocumentStore

end ScriptHost
