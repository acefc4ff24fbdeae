import ScriptHost.Engine.Step

/-!
# Running an engine

A calling thread works off one operation at a time. With a pool that only
runs jobs when told to, that is all that happens. With workers of its own the
engine runs turns beside the caller: whenever the caller waits or edits the
variables of a script, and after each operation unless it is told to hold, the
workers go on until none of them can move.
-/

namespace ScriptHost

/-- The workers of a pool: how many there may be, and the turns they are at. -/
structure Workers where
  limit : Nat
  threads : List Thread
  deriving Inhabited

structure Session where
  machine : Machine
  workers : Option Workers
  deriving Inhabited

namespace Workers

def hire? (w : Workers) (m : Machine) : Option (Machine × Workers) :=
  if w.limit ≤ w.threads.length then none
  else do
    let n ← m.oldestQueued?
    let job ← m.job? n
    let thread := Thread.ofJob job.owner job.ticket n
    return (m.setPhase n .running, { w with threads := w.threads ++ [thread] })

/-- Run every worker as far as it goes, and dismiss those that are done. -/
def round (fuel : Nat) (w : Workers) (m : Machine) : Machine × Workers :=
  let (m, threads) := w.threads.foldl (fun (m, done) t =>
    let (m, t) := t.run fuel m
    (m, if t.isDone then done else done ++ [t])) (m, [])
  (m, { w with threads := threads })

def settle (fuel : Nat) : Nat → Machine → Workers → Machine × Workers
  | 0, m, w => (m, w)
  | rounds + 1, m, w =>
    match w.hire? m with
    | some (m, w) => settle fuel rounds m w
    | none =>
      if w.threads.any (·.canMove m) then
        let (m, w) := w.round fuel m
        settle fuel rounds m w
      else (m, w)

end Workers

namespace Session

/-- Enough sections for any operation that ends. -/
def fuel : Nat := 10000000

def settle (s : Session) : Session :=
  match s.workers with
  | none => s
  | some w =>
    let (m, w) := Workers.settle fuel fuel s.machine w
    ⟨m, some w⟩

/-- Whether a thread is about to learn the result of a wait, or has a script for an edit. -/
def waits (t : Thread) : Bool :=
  match t.agenda with
  | .stopWaited _ _ _ _ :: _ | .letGo _ .edit :: _ => true
  | _ => false

def finish : Nat → Session → Thread → Session × Thread
  | 0, s, t => (s, t)
  | steps + 1, s, t =>
    let s := if waits t then s.settle else s
    match t.step? s.machine with
    | none => (s, t)
    | some (m, t) => finish steps { s with machine := m } t

def call (s : Session) (o : Op) (hold : Bool) : Session × Reply × List Note :=
  let before := s.machine.trace.length
  let (s, t) := finish fuel s (Thread.ofOp o)
  let s := if hold then s else s.settle
  let fresh := s.machine.trace.length - before
  (s, t.reply, (s.machine.trace.take fresh).reverse)

def loaded (s : Session) : List (String × Instance) :=
  s.machine.named.filterMap fun (name, id) => (s.machine.get? id).map fun i => (name, i)

end Session

end ScriptHost
