import ScriptHost.Model.Event

/-!
# Who a script is

The identity of a script instance, why it is being loaded, and its scheduling
state as seen from outside.
-/

namespace ScriptHost

open Json (Token Decoder)

/-- The identity of an instance. Saved state is addressed by the item. -/
structure Identity where
  object : Uuid
  item : Uuid
  asset : Uuid
  localId : UInt32
  domain : Uuid
  entityName : String
  scriptName : String
  deriving DecidableEq, Repr, Inhabited

namespace Identity

def text (i : Identity) : String := i.entityName ++ "." ++ i.scriptName

def tokens (i : Identity) : List Token :=
  Json.objectTokens [
    ("object_id", [.string i.object.text]),
    ("item_id", [.string i.item.text]),
    ("asset_id", [.string i.asset.text]),
    ("local_id", [.int i.localId.toNat]),
    ("domain_id", [.string i.domain.text]),
    ("entity_name", [.string i.entityName]),
    ("script_name", [.string i.scriptName])]

structure Draft where
  object : Option Uuid
  item : Option Uuid
  asset : Option Uuid
  localId : Option UInt32
  domain : Option Uuid
  entityName : Option String
  scriptName : Option String

def field (_ : Nat) : Decoder.Field Draft
  | d, "object_id" =>
    Decoder.once d.object (Decoder.parsed Uuid.parse?) fun a => { d with object := some a }
  | d, "item_id" =>
    Decoder.once d.item (Decoder.parsed Uuid.parse?) fun a => { d with item := some a }
  | d, "asset_id" =>
    Decoder.once d.asset (Decoder.parsed Uuid.parse?) fun a => { d with asset := some a }
  | d, "local_id" =>
    Decoder.once d.localId
      (Decoder.map (fun n => UInt32.ofNat n.toNat) (Decoder.int 0 (UInt32.size - 1)))
      fun a => { d with localId := some a }
  | d, "domain_id" =>
    Decoder.once d.domain (Decoder.parsed Uuid.parse?) fun a => { d with domain := some a }
  | d, "entity_name" =>
    Decoder.once d.entityName Decoder.string fun a => { d with entityName := some a }
  | d, "script_name" =>
    Decoder.once d.scriptName Decoder.string fun a => { d with scriptName := some a }
  | _, _ => .ok none

def Draft.finish? (d : Draft) : Option Identity := do
  return ⟨← d.object, ← d.item, ← d.asset, ← d.localId, ← d.domain, ← d.entityName,
    ← d.scriptName⟩

def decoder (size levels : Nat) : Decoder Identity :=
  Decoder.record size levels
    ["object_id", "item_id", "asset_id", "local_id", "domain_id", "entity_name", "script_name"]
    ⟨none, none, none, none, none, none, none⟩ field Draft.finish?

def parse (bytes : Bytes) : Except Failure Identity := Json.decode decoder bytes

end Identity

inductive Source where
  | newRez
  | primCrossing
  | attachmentCrossing
  deriving DecidableEq, Repr, Inhabited

namespace Source

def name : Source → String
  | newRez => "new_rez"
  | primCrossing => "prim_crossing"
  | attachmentCrossing => "attachment_crossing"

def ofName? (s : String) : Option Source :=
  [newRez, primCrossing, attachmentCrossing].find? (·.name == s)

def parse (bytes : Bytes) : Except Failure Source :=
  Json.decode (fun _ levels => Decoder.choice levels ofName?) bytes

end Source

inductive Execution where
  | stopped
  | idle
  | scheduled
  deriving DecidableEq, Repr, Inhabited

namespace Execution

def name : Execution → String
  | stopped => "stopped"
  | idle => "idle"
  | scheduled => "scheduled"

def ofName? (s : String) : Option Execution := [stopped, idle, scheduled].find? (·.name == s)

def parse (bytes : Bytes) : Except Failure Execution :=
  Json.decode (fun _ levels => Decoder.choice levels ofName?) bytes

end Execution

end ScriptHost
