import ScriptHost.Json.Token
import ScriptHost.Model.Uuid

/-!
# Errors

What can go wrong in the engine. Faults raised by a running script are not
errors in this sense.
-/

namespace ScriptHost

inductive Error where
  | entityNotFound (localId : UInt32)
  | stateNotPersisted (item : Uuid)
  | encode (failure : Failure)
  | io (cause : String)
  | config (cause : String)
  | world (cause : String)
  | other (cause : String)
  deriving DecidableEq, Repr, Inhabited

namespace Error

def message : Error → String
  | entityNotFound localId => s!"entity not found: local id {localId.toNat}"
  | stateNotPersisted item =>
    s!"completed persistence save for {item.text}, but no state was stored"
  | encode _ => "state encoding error"
  | io cause => s!"io error: {cause}"
  | config cause => s!"configuration error: {cause}"
  | world cause => s!"world error: {cause}"
  | other cause => cause

end Error

end ScriptHost
