import ScriptHost.Model.Error

/-!
# Documents in memory

Stored bytes by item. Every item has at most one entry, the one written last.
-/

namespace ScriptHost

structure MemoryStore where
  blobs : List (Uuid × Bytes)
  deriving DecidableEq, Repr, Inhabited

namespace MemoryStore

def empty : MemoryStore := ⟨[]⟩

def get? (s : MemoryStore) (item : Uuid) : Option Bytes := s.blobs.lookup item

def erase (s : MemoryStore) (item : Uuid) : MemoryStore := ⟨s.blobs.filter (·.1 != item)⟩

def write (s : MemoryStore) (item : Uuid) (data : Bytes) : MemoryStore :=
  ⟨(item, data) :: (s.erase item).blobs⟩

def count (s : MemoryStore) : Nat := s.blobs.length

def size (s : MemoryStore) (item : Uuid) : Option Nat := (s.get? item).map List.length

def read (s : MemoryStore) (item : Uuid) : Except Error Bytes :=
  match s.get? item with
  | some data => .ok data
  | none => .error (.other s!"no state stored for {item.text}")

end MemoryStore

end ScriptHost
