import ScriptHost.Model.Event

/-!
# The event queue

Pending events of one instance: first in, first out, bounded. At most one
`timer` is pending; a second one is dropped. Every other event is kept as
posted, duplicates included. Whether a timer is pending is cached in a flag.
-/

namespace ScriptHost

inductive Posting where
  | accepted
  | full
  | coalesced
  | notRunning
  deriving DecidableEq, Repr, Inhabited

namespace Posting

def name : Posting → String
  | accepted => "accepted"
  | full => "full"
  | coalesced => "coalesced"
  | notRunning => "not_running"

def isAccepted (p : Posting) : Bool := p == accepted

end Posting

/-- The waiting events, oldest first, and whether a timer event is among them. -/
structure Queue where
  capacity : Nat
  events : List Event
  timerPending : Bool
  deriving Inhabited

namespace Queue

def empty (capacity : Nat) : Queue := ⟨capacity, [], false⟩

def push (q : Queue) (e : Event) : Queue × Posting :=
  if q.capacity ≤ q.events.length then (q, .full)
  else if e.isTimer && q.timerPending then (q, .coalesced)
  else
    ({ q with events := q.events ++ [e], timerPending := q.timerPending || e.isTimer }, .accepted)

def pop? (q : Queue) : Option (Event × Queue) :=
  match q.events with
  | [] => none
  | e :: rest =>
    some (e, { q with events := rest, timerPending := q.timerPending && !e.isTimer })

def clear (q : Queue) : Queue := empty q.capacity

def length (q : Queue) : Nat := q.events.length

def isEmpty (q : Queue) : Bool := q.events.isEmpty

def pushAll (q : Queue) (events : List Event) : Queue :=
  events.foldl (fun q e => (q.push e).1) q

end Queue

end ScriptHost
