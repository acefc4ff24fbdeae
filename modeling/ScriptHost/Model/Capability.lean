import ScriptHost.Model.Identity

/-!
# Capabilities

A capability gives a running script access to a part of the world. Factories
are registered by kind, the last one of a kind counts; each instance gets a
table with one capability of every kind that is registered.
-/

namespace ScriptHost

inductive CapabilityKind where
  | world
  | chat
  | timers
  | sensors
  | inventory
  deriving DecidableEq, Repr, Inhabited

namespace CapabilityKind

def all : List CapabilityKind := [world, chat, timers, sensors, inventory]

def name : CapabilityKind → String
  | world => "world"
  | chat => "chat"
  | timers => "timers"
  | sensors => "sensors"
  | inventory => "inventory"

def ofName? (s : String) : Option CapabilityKind := all.find? (·.name == s)

def parse (bytes : Bytes) : Except Failure CapabilityKind :=
  Json.decode (fun _ levels => Json.Decoder.choice levels ofName?) bytes

end CapabilityKind

/-- What the engine knows about the entity a script lives in. -/
structure Entity where
  localId : UInt32
  id : Uuid
  name : String
  position : Position
  deriving DecidableEq, Repr, Inhabited

/-- A capability of one instance; its text tells what it was made for. -/
structure Capability where
  kind : CapabilityKind
  text : String
  deriving DecidableEq, Repr, Inhabited

structure CapabilityFactory where
  kind : CapabilityKind
  create : Identity → Entity → Capability

namespace CapabilityFactory

/-- Capabilities that carry a tag, the script and the entity they were made for. -/
def labelled (kind : CapabilityKind) (tag : String) : CapabilityFactory where
  kind := kind
  create identity entity :=
    ⟨kind, s!"{tag}|{identity.text}|{entity.name}|{entity.localId.toNat}"⟩

end CapabilityFactory

/-- The factories, at most one a kind. -/
structure CapabilityRegistry where
  factory? : CapabilityKind → Option CapabilityFactory

namespace CapabilityRegistry

def empty : CapabilityRegistry := ⟨fun _ => none⟩

instance : Inhabited CapabilityRegistry := ⟨empty⟩

/-- Register a factory in place of an older one of its kind. -/
def register (r : CapabilityRegistry) (f : CapabilityFactory) : CapabilityRegistry :=
  ⟨fun kind => if kind = f.kind then some f else r.factory? kind⟩

def kinds (r : CapabilityRegistry) : List CapabilityKind :=
  CapabilityKind.all.filter fun kind => (r.factory? kind).isSome

def instantiate (r : CapabilityRegistry) (identity : Identity) (entity : Entity) :
    List (CapabilityKind × Capability) :=
  CapabilityKind.all.filterMap fun kind =>
    (r.factory? kind).map fun f => (kind, f.create identity entity)

end CapabilityRegistry

end ScriptHost
