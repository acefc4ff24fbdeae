import ScriptHost.Model.Queue
import ScriptHost.Model.Instant
import ScriptHost.Model.Error

/-!
# State documents

Everything needed to bring an instance back where it left off, as an indented
JSON text. The reader takes more than the writer emits: fields in any order,
a record as an array, missing variables, plugin data or queue.
-/

namespace ScriptHost

open Json (Token Decoder)

structure Document where
  state : String
  running : Bool
  vars : Vars
  pluginData : Bytes
  queue : List Event
  savedAt : Instant
  deriving Inhabited

namespace Document

def tokens (d : Document) : List Token :=
  Json.objectTokens [
    ("state", [.string d.state]),
    ("running", [.bool d.running]),
    ("vars", d.vars.tokens),
    ("plugin_data", Json.arrayTokens (d.pluginData.map fun b => [.int b.toNat])),
    ("queue", Json.arrayTokens (d.queue.map Event.tokens)),
    ("saved_at", [.string d.savedAt.encoded])]

def text (d : Document) : String := Json.indented d.tokens

def encode (d : Document) : Bytes := Text.toBytes d.text

structure Draft where
  state : Option String
  running : Option Bool
  vars : Option Vars
  pluginData : Option Bytes
  queue : Option (List Event)
  savedAt : Option Instant

/-- A byte is a whole number below 256. -/
def byte : Decoder UInt8 := Decoder.map (fun n => UInt8.ofNat n.toNat) (Decoder.int 0 255)

def field (size levels : Nat) : Decoder.Field Draft
  | d, "state" => Decoder.once d.state Decoder.string fun a => { d with state := some a }
  | d, "running" => Decoder.once d.running Decoder.bool fun a => { d with running := some a }
  | d, "vars" => Decoder.once d.vars (Vars.decoder size levels) fun a => { d with vars := some a }
  | d, "plugin_data" =>
    Decoder.once d.pluginData (Decoder.array size levels fun _ => byte)
      fun a => { d with pluginData := some a }
  | d, "queue" =>
    Decoder.once d.queue (Decoder.array size levels (Event.decoder size))
      fun a => { d with queue := some a }
  | d, "saved_at" =>
    Decoder.once d.savedAt (Decoder.parsed Instant.parse?) fun a => { d with savedAt := some a }
  | _, _ => .ok none

def Draft.finish? (d : Draft) : Option Document :=
  match d.state, d.running, d.savedAt with
  | some state, some running, some savedAt =>
    some ⟨state, running, d.vars.getD .empty, d.pluginData.getD [], d.queue.getD [], savedAt⟩
  | _, _, _ => none

def decoder (size levels : Nat) : Decoder Document :=
  Decoder.record size levels ["state", "running", "vars", "plugin_data", "queue", "saved_at"]
    ⟨none, none, none, none, none, none⟩ (field size) Draft.finish?

def decode (bytes : Bytes) : Except Failure Document := Json.decode decoder bytes

end Document

end ScriptHost
