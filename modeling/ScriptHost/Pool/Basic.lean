import ScriptHost.Pool.Ticket

/-!
# The worker pool

Jobs start in the order in which they come, as many at once as there are
workers. The jobs here are the four kinds that tell pools apart: one that
returns at once, one that waits to be released, one that also heeds its
interrupt, and one that panics. After each call the workers go on until all
that are left wait.
-/

namespace ScriptHost

/-- What a job does when it is run: return at once, wait to be released, wait to be released or
interrupted, or panic. -/
inductive PoolJob where
  | quick
  | block
  | spin
  | panic
  deriving DecidableEq, Repr, Inhabited

/-- A job in the pool: its ticket, what its worker does next, whether it has been released, and
what its body noted of the interrupt when it returned. -/
structure PoolEntry where
  job : PoolJob
  ticket : Ticket
  worker : Access
  released : Bool
  noted : Option Bool
  deriving DecidableEq, Repr, Inhabited

namespace PoolEntry

def ofJob (job : PoolJob) : PoolEntry :=
  ⟨job, .fresh, .claim (if job = .panic then .panicked else .returned), false, none⟩

def isWaiting (e : PoolEntry) : Bool :=
  match e.worker with
  | .claim _ => true
  | _ => false

def isRunning (e : PoolEntry) : Bool :=
  match e.worker with
  | .body _ => true
  | _ => false

/-- Whether the body has nothing to wait for any more. -/
def canEnd (e : PoolEntry) : Bool :=
  e.isRunning && match e.job with
    | .quick | .panic => true
    | .block => e.released
    | .spin => e.released || e.ticket.interrupted

def claim (e : PoolEntry) : PoolEntry :=
  let (ticket, worker) := e.ticket.access e.worker
  { e with ticket, worker }

def finish (e : PoolEntry) : PoolEntry :=
  let noted := if e.job = .panic then none else some e.ticket.interrupted
  let (ticket, worker) := e.ticket.accesses 3 e.worker
  { e with ticket, worker, noted }

end PoolEntry

structure Pool where
  workers : Nat
  entries : List PoolEntry
  /-- The jobs whose body has been entered, in that order. -/
  order : List Nat
  deriving DecidableEq, Repr, Inhabited

namespace Pool

def ofWorkers (workers : Nat) : Pool := ⟨max 1 workers, [], []⟩

def modify (p : Pool) (job : Nat) (f : PoolEntry → PoolEntry) : Pool :=
  { p with entries := p.entries.modify job f }

def running (p : Pool) : Nat := p.entries.countP PoolEntry.isRunning

/-- The next thing that the workers do by themselves: end a body that has nothing to wait for,
else come to the oldest job if one of them is free. -/
def advance? (p : Pool) : Option Pool :=
  match p.entries.findIdx? PoolEntry.canEnd with
  | some job => some (p.modify job PoolEntry.finish)
  | none =>
    match p.entries.findIdx? PoolEntry.isWaiting with
    | none => none
    | some job =>
      if p.workers ≤ p.running then none
      else
        let p := p.modify job PoolEntry.claim
        let entered := (p.entries[job]?.map PoolEntry.isRunning).getD false
        some (if entered then { p with order := p.order ++ [job] } else p)

def advance : Nat → Pool → Pool
  | 0, p => p
  | n + 1, p =>
    match p.advance? with
    | some p => advance n p
    | none => p

/-- Let the workers go on: every job is come to once and ended once. -/
def settle (p : Pool) : Pool := advance (2 * p.entries.length) p

def dispatch (p : Pool) (job : PoolJob) : Pool × Nat :=
  (settle { p with entries := p.entries ++ [.ofJob job] }, p.entries.length)

def cancel (p : Pool) (job : Nat) : Pool × Bool :=
  match p.entries[job]? with
  | none => (p, false)
  | some e =>
    let (ticket, ok) := e.ticket.cancel
    (settle (p.modify job fun e => { e with ticket }), ok)

def abort (p : Pool) (job : Nat) : Pool :=
  settle (p.modify job fun e => { e with ticket := e.ticket.abort })

def release (p : Pool) (job : Nat) : Pool :=
  settle (p.modify job fun e => { e with released := true })

/-- Whether those who wait for a job have been told. -/
def finished (p : Pool) (job : Nat) : Bool := (p.entries[job]?.map (·.ticket.finished)).getD false

def started (p : Pool) (job : Nat) : Bool := p.order.contains job

def noted (p : Pool) (job : Nat) : Option Bool := p.entries[job]?.bind (·.noted)

end Pool

end ScriptHost
