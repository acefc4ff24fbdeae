import ScriptHost.Model.Vars

/-!
# Events

An event has a name, arguments, and the things detected when it happened. The
engine posts a few itself; `timer` and the reserved `state` are treated
specially.
-/

namespace ScriptHost

open Json (Token Decoder)

structure Position where
  x : Binary64
  y : Binary64
  z : Binary64
  deriving DecidableEq, Repr, Inhabited

namespace Position

def tokens (p : Position) : List Token := Value.floatTokens [p.x, p.y, p.z]

def ofList? : List Binary64 → Option Position
  | [x, y, z] => some ⟨x, y, z⟩
  | _ => none

def decoder (levels : Nat) : Decoder Position :=
  Decoder.checked ofList? (Decoder.tuple levels 3 Decoder.float)

end Position

/-- One detected thing: an avatar, an object. -/
structure Detection where
  key : Uuid
  owner : Uuid
  name : String
  position : Position
  linkNumber : Int32
  deriving DecidableEq, Repr, Inhabited

namespace Detection

def tokens (d : Detection) : List Token :=
  Json.objectTokens [
    ("key", [.string d.key.text]),
    ("owner", [.string d.owner.text]),
    ("name", [.string d.name]),
    ("position", d.position.tokens),
    ("link_number", [.int d.linkNumber.toInt])]

structure Draft where
  key : Option Uuid
  owner : Option Uuid
  name : Option String
  position : Option Position
  linkNumber : Option Int32

def field (levels : Nat) : Decoder.Field Draft
  | d, "key" => Decoder.once d.key (Decoder.parsed Uuid.parse?) fun a => { d with key := some a }
  | d, "owner" =>
    Decoder.once d.owner (Decoder.parsed Uuid.parse?) fun a => { d with owner := some a }
  | d, "name" => Decoder.once d.name Decoder.string fun a => { d with name := some a }
  | d, "position" =>
    Decoder.once d.position (Position.decoder levels) fun a => { d with position := some a }
  | d, "link_number" =>
    Decoder.once d.linkNumber
      (Decoder.map Int32.ofInt (Decoder.int Int32.minValue.toInt Int32.maxValue.toInt))
      fun a => { d with linkNumber := some a }
  | _, _ => .ok none

/-- The link number may be missing. -/
def Draft.finish? (d : Draft) : Option Detection :=
  match d.key, d.owner, d.name, d.position with
  | some key, some owner, some name, some position =>
    some ⟨key, owner, name, position, d.linkNumber.getD 0⟩
  | _, _, _, _ => none

def decoder (size levels : Nat) : Decoder Detection :=
  Decoder.record size levels ["key", "owner", "name", "position", "link_number"]
    ⟨none, none, none, none, none⟩ field Draft.finish?

end Detection

structure Event where
  name : String
  args : List Value
  detected : List Detection
  deriving Inhabited

namespace Event

def plain (name : String) (args : List Value) : Event := ⟨name, args, []⟩

def stateEntry : Event := plain "state_entry" []

def stateExit : Event := plain "state_exit" []

def onRez (param : Int64) : Event := plain "on_rez" [.integer param]

/-- What scripts with restored state get when their region has restarted. -/
def regionRestart : Event := plain "changed" [.integer 256]

/-- The reserved record that switches a script to a named state. -/
def setState (state : String) : Event := plain "state" [.string state]

def isTimer (e : Event) : Bool := e.name == "timer"

def isSetState (e : Event) : Bool := e.name == "state"

def isStateEntry (e : Event) : Bool := e.name == "state_entry"

def tokens (e : Event) : List Token :=
  Json.objectTokens [
    ("name", [.string e.name]),
    ("args", Json.arrayTokens (e.args.map Value.tokens)),
    ("detected", Json.arrayTokens (e.detected.map Detection.tokens))]

structure Draft where
  name : Option String
  args : Option (List Value)
  detected : Option (List Detection)

def field (size levels : Nat) : Decoder.Field Draft
  | d, "name" => Decoder.once d.name Decoder.string fun a => { d with name := some a }
  | d, "args" =>
    Decoder.once d.args (Decoder.array size levels (Value.decoder size))
      fun a => { d with args := some a }
  | d, "detected" =>
    Decoder.once d.detected (Decoder.array size levels (Detection.decoder size))
      fun a => { d with detected := some a }
  | _, _ => .ok none

def Draft.finish? (d : Draft) : Option Event :=
  d.name.map fun name => ⟨name, d.args.getD [], d.detected.getD []⟩

def decoder (size levels : Nat) : Decoder Event :=
  Decoder.record size levels ["name", "args", "detected"] ⟨none, none, none⟩ (field size)
    Draft.finish?

def parse (bytes : Bytes) : Except Failure Event := Json.decode decoder bytes

end Event

end ScriptHost
