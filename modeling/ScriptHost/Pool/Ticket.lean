/-!
# Tickets

A job in the pool's hands has a ticket, which its worker shares with whoever
holds the job. They touch it one access at a time, and other threads may come
between any two accesses: claiming a job and taking it back are each a compare
and exchange of the phase, telling the waiting that it is over is a second
access, and an abort first tries to take the job back and only then looks at
the phase. `access` is one such access; a `Race` is a ticket with all threads
that are at it.
-/

namespace ScriptHost

inductive Phase where
  | queued
  | running
  | done
  | cancelled
  deriving DecidableEq, Repr, Inhabited

/-- What worker and holders of a job share. `finished` is what those who wait look at. -/
structure Ticket where
  phase : Phase
  finished : Bool
  interrupted : Bool
  deriving DecidableEq, Repr, Inhabited

inductive Ending where
  | returned
  | panicked
  deriving DecidableEq, Repr, Inhabited

inductive Access where
  /-- The worker claims the job. -/
  | claim (ending : Ending)
  /-- The worker is in the body, which ends in one way or the other. -/
  | body (ending : Ending)
  /-- The worker stores the last phase. -/
  | storeDone
  /-- The worker tells the waiting. -/
  | tellDone
  /-- The worker is through; whether it has been in the body. -/
  | left (entered : Bool)
  /-- A holder tries to take the job back, for an abort or for itself. -/
  | take (aborting : Bool)
  /-- It worked: the holder stores the phase once more. -/
  | storeCancelled (aborting : Bool)
  /-- The holder tells the waiting. -/
  | tellCancelled (aborting : Bool)
  /-- A cancel has returned. -/
  | cancelReturned (ok : Bool)
  /-- An abort that could not take the job back looks whether it runs. -/
  | look
  /-- It does: the abort trips the interrupt. -/
  | trip
  | abortReturned
  deriving DecidableEq, Repr, Inhabited

namespace Ticket

def fresh : Ticket := ⟨.queued, false, false⟩

/-- One access of a thread, and what the thread does next. A body always gives way to the last two
accesses, also when it panics. -/
def access (t : Ticket) : Access → Ticket × Access
  | .claim ending =>
    if t.phase = .queued then ({ t with phase := .running }, .body ending) else (t, .left false)
  | .body _ => (t, .storeDone)
  | .storeDone => ({ t with phase := .done }, .tellDone)
  | .tellDone => ({ t with finished := true }, .left true)
  | .left entered => (t, .left entered)
  | .take aborting =>
    if t.phase = .queued then ({ t with phase := .cancelled }, .storeCancelled aborting)
    else (t, if aborting then .look else .cancelReturned false)
  | .storeCancelled aborting => ({ t with phase := .cancelled }, .tellCancelled aborting)
  | .tellCancelled aborting =>
    ({ t with finished := true }, if aborting then .abortReturned else .cancelReturned true)
  | .cancelReturned ok => (t, .cancelReturned ok)
  | .look => (t, if t.phase = .running then .trip else .abortReturned)
  | .trip => ({ t with interrupted := true }, .abortReturned)
  | .abortReturned => (t, .abortReturned)

/-- So many accesses of one thread, with no other in between. -/
def accesses : Nat → Ticket → Access → Ticket × Access
  | 0, t, a => (t, a)
  | n + 1, t, a =>
    let (t, a) := t.access a
    accesses n t a

/-- A cancel that nobody disturbs, and whether it worked. -/
def cancel (t : Ticket) : Ticket × Bool :=
  let (t, a) := t.accesses 3 (.take false)
  (t, a == .cancelReturned true)

def abort (t : Ticket) : Ticket := (t.accesses 3 (.take true)).1

end Ticket

structure Race where
  ticket : Ticket
  threads : List Access
  deriving DecidableEq, Repr, Inhabited

namespace Race

def step (r : Race) (i : Nat) : Race :=
  match r.threads[i]? with
  | none => r
  | some a =>
    let (t, a) := r.ticket.access a
    ⟨t, r.threads.set i a⟩

def run (r : Race) (schedule : List Nat) : Race := schedule.foldl step r

/-- A fresh ticket with its worker and holders that each cancel or abort. -/
def start (ending : Ending) (aborting : List Bool) : Race :=
  ⟨.fresh, .claim ending :: aborting.map .take⟩

end Race

end ScriptHost
