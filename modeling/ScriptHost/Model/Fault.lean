/-!
# Faults

A runtime fault of an event handler, and the text that is shown in-world for
it: a heading, the message and the detail, cut to a number of characters.
-/

namespace ScriptHost

/-- A failure of the script itself, with an optional second text. -/
structure Fault where
  message : String
  detail : Option String
  deriving DecidableEq, Repr, Inhabited

/-- What a panic carries: a text of the program's, one of its own, or no text at all. -/
inductive Payload where
  | literal (text : String)
  | owned (text : String)
  | other
  deriving DecidableEq, Repr, Inhabited

namespace Fault

/-- Heading, message and detail, a line each. -/
def fullText (f : Fault) : String :=
  "Runtime error:\n" ++ f.message ++ match f.detail with
    | some detail => "\n" ++ detail
    | none => ""

/-- The first `limit` characters of the full text. -/
def visibleText (f : Fault) (limit : Nat) : String := String.ofList (f.fullText.toList.take limit)

/-- A panic that carries a text is a fault with that message. -/
def ofPanic : Payload → Fault
  | .literal message | .owned message => ⟨message, none⟩
  | .other => ⟨"event handler panicked", none⟩

end Fault

end ScriptHost
