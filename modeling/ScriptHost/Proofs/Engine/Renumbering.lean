import ScriptHost.Engine.Instr
import Mathlib.Logic.Function.Basic
import Mathlib.Tactic.Simps.Basic
import Mathlib.Tactic.SplitIfs

/-!
# Numbers that do not matter

Instances and jobs are numbered in the order in which they come, so that the
same work done in another order has other numbers in it. `renumber` puts new
numbers in place of the old ones: in a slot, in a turn that is being carried
out, and in the sections of work that are left.
-/

namespace ScriptHost

/-- New numbers for instances and for jobs, and new places in the list of names. -/
structure Renumbering where
  id : Nat → Nat
  job : Nat → Nat
  place : Nat → Nat

variable (ρ : Renumbering)

@[simps]
def Turn.renumber (t : Turn) : Turn := { t with job := ρ.job t.job }

@[simps]
def Slot.renumber (s : Slot) : Slot := { s with current := s.current.map (·.renumber ρ) }

@[simps]
def Instance.renumber (i : Instance) : Instance := { i with slot := i.slot.renumber ρ }

@[simps]
def Job.renumber (j : Job) : Job := { j with owner := ρ.id j.owner }

@[simps]
def Invocation.renumber (v : Invocation) : Invocation :=
  { v with id := ρ.id v.id, job := ρ.job v.job }

@[simps]
def Loading.renumber (l : Loading) : Loading := { l with place := ρ.place l.place }

def Instr.renumber : Instr → Instr
  | .op o => .op o
  | .noteBegin o => .noteBegin o
  | .noteReply => .noteReply
  | .answer r => .answer r
  | .log level message => .log level message
  | .count metric => .count metric
  | .start id => .start (ρ.id id)
  | .stop id ms => .stop (ρ.id id) ms
  | .stopWait id ms turn => .stopWait (ρ.id id) ms (turn.renumber ρ)
  | .stopWaited id ms turn forced => .stopWaited (ρ.id id) ms (turn.renumber ρ) forced
  | .stopCheck id ms turn => .stopCheck (ρ.id id) ms (turn.renumber ρ)
  | .stopAbort id turn => .stopAbort (ρ.id id) (turn.renumber ρ)
  | .stopEnd id turn => .stopEnd (ρ.id id) (turn.renumber ρ)
  | .post id e => .post (ρ.id id) e
  | .clearQueue id => .clearQueue (ρ.id id)
  | .edit id e => .edit (ρ.id id) e
  | .replaceState id state => .replaceState (ρ.id id) state
  | .clearPermissions id => .clearPermissions (ρ.id id)
  | .removePlugins id => .removePlugins (ρ.id id)
  | .removeState id => .removeState (ρ.id id)
  | .publishMask id => .publishMask (ρ.id id)
  | .letGo id e => .letGo (ρ.id id) e
  | .reset id => .reset (ρ.id id)
  | .stateEntryUnlessCurrent id => .stateEntryUnlessCurrent (ρ.id id)
  | .save id s => .save (ρ.id id) s
  | .saveEach ids first => .saveEach (ids.map ρ.id) first
  | .shutdownEach ids first => .shutdownEach (ids.map ρ.id) first
  | .saved ids first shutdown => .saved (ids.map ρ.id) first shutdown
  | .load l => .load (l.renumber ρ)
  | .recoverSize id l => .recoverSize (ρ.id id) (l.renumber ρ)
  | .recoverRead id l => .recoverRead (ρ.id id) (l.renumber ρ)
  | .importData id data => .importData (ρ.id id) data
  | .refill id events => .refill (ρ.id id) events
  | .register id => .register (ρ.id id)
  | .loaded id name place => .loaded (ρ.id id) name (ρ.place place)
  | .postEach ids e accepted => .postEach (ids.map ρ.id) e accepted
  | .posted ids e accepted => .posted (ids.map ρ.id) e accepted
  | .run turns ran => .run turns ran
  | .takeTurn id ticket job => .takeTurn (ρ.id id) ticket (ρ.job job)
  | .readDetected v => .readDetected (v.renumber ρ)
  | .lockScript v => .lockScript (v.renumber ρ)
  | .settle id => .settle (ρ.id id)
  | .enter v => .enter (v.renumber ρ)
  | .act v actions => .act (v.renumber ρ) actions
  | .parked job untilInterrupted releases => .parked (ρ.job job) untilInterrupted releases
  | .unlock id => .unlock (ρ.id id)
  | .applyRequests v outcome => .applyRequests (v.renumber ρ) outcome
  | .conclude v outcome => .conclude (v.renumber ρ) outcome
  | .selfDelete id => .selfDelete (ρ.id id)
  | .deleted e => .deleted e
  | .showFault v f => .showFault (v.renumber ρ) f
  | .delivered text e => .delivered text e
  | .record v outcome => .record (v.renumber ρ) outcome
  | .finishTurn id ticket => .finishTurn (ρ.id id) ticket
  | .jobDone job => .jobDone (ρ.job job)

/-- Numbers below a bound stay as they are, and from there on they are counted from another
start. -/
def recount (bound start k : Nat) : Nat := if k < bound then k else k - bound + start

/-- From a bound on, so many numbers change places with the so many that follow. -/
def exchange (bound first second k : Nat) : Nat :=
  if k < bound then k
  else if k < bound + first then k + second
  else if k < bound + first + second then k - first
  else k

section Numbers

variable {bound first second k : Nat}

theorem recount_of_lt {start : Nat} (h : k < bound) : recount bound start k = k := if_pos h

theorem recount_add (bound start k : Nat) : recount bound start (bound + k) = start + k := by
  unfold recount
  rw [if_neg (by omega)]
  omega

theorem exchange_exchange (bound first second k : Nat) :
    exchange bound second first (exchange bound first second k) = k := by
  unfold exchange
  split_ifs <;> omega

theorem bijective_exchange (bound first second : Nat) :
    Function.Bijective (exchange bound first second) :=
  Function.bijective_iff_has_inverse.mpr ⟨exchange bound second first,
    exchange_exchange bound first second, exchange_exchange bound second first⟩

theorem exchange_of_lt (h : k < bound) : exchange bound first second k = k := if_pos h

/-- The numbers that come first are counted behind those that come second. -/
theorem exchange_first (h : k < bound + first) :
    exchange bound first second k = recount bound (bound + second) k := by
  unfold exchange recount
  split_ifs <;> omega

theorem exchange_second (bound first second k : Nat) (h : k < bound ∨ bound + first ≤ k)
    (hk : k < bound + first + second) :
    exchange bound first second k = recount (bound + first) bound k := by
  unfold exchange recount
  split_ifs <;> omega

theorem exchange_beyond (h : bound + first + second ≤ k) : exchange bound first second k = k := by
  unfold exchange
  split_ifs <;> omega

end Numbers

/-! ## Instances -/

section

variable {ρ} {i : Instance}

@[simp] theorem Slot.owns_renumber {s : Slot} (ticket : Nat) :
    (s.renumber ρ).owns ticket = s.owns ticket := by
  unfold owns
  cases h : s.current <;> simp [h]

@[simp] theorem Instance.item_renumber : (i.renumber ρ).item = i.item := rfl

@[simp] theorem Instance.owns_renumber (ticket : Nat) :
    (i.renumber ρ).owns ticket = i.owns ticket :=
  Slot.owns_renumber ticket

@[simp] theorem Instance.info_renumber : (i.renumber ρ).info = i.info := by
  simp only [info, execution, renumber_slot, Slot.renumber_current, Option.isSome_map]
  rfl

/-- What is done to the slot of an instance, apart from its turn. -/
theorem Instance.edit_renumber (e : Edit) : (i.edit e).renumber ρ = (i.renumber ρ).edit e := by
  simp only [edit, apply_ite (Instance.renumber ρ)]
  rfl

/-- Only the number of the job of an outstanding turn matters. -/
theorem Instance.renumber_congr {σ : Renumbering}
    (h : ∀ turn, i.slot.current = some turn → ρ.job turn.job = σ.job turn.job) :
    i.renumber ρ = i.renumber σ := by
  have slot : i.slot.renumber ρ = i.slot.renumber σ := by
    unfold Slot.renumber
    cases hc : i.slot.current with
    | none => rfl
    | some turn => simp only [Option.map_some, Turn.renumber, h turn hc]
  rw [renumber, renumber, slot]

theorem Instance.renumber_eq_self
    (h : ∀ turn, i.slot.current = some turn → ρ.job turn.job = turn.job) : i.renumber ρ = i := by
  have slot : i.slot.renumber ρ = i.slot := by
    unfold Slot.renumber
    cases hc : i.slot.current with
    | none => rw [Option.map_none, ← hc]
    | some turn => rw [Option.map_some, Turn.renumber, h turn hc, ← hc]
  rw [renumber, slot]

end

/-! ## Sections that come in a row -/

namespace Instr

section

variable {ρ} {id : Nat}

theorem map_resetAll (wasRunning : Bool) :
    (resetAll id wasRunning).map (renumber ρ) = resetAll (ρ.id id) wasRunning := by
  cases wasRunning <;> rfl

theorem map_request (q : Request) : (request id q).map (renumber ρ) = request (ρ.id id) q := by
  cases q <;> rfl

theorem map_freshStart (q : LoadRequest) :
    (freshStart id q).map (renumber ρ) = freshStart (ρ.id id) q := by
  unfold freshStart
  split <;> rfl

theorem map_restore (q : LoadRequest) (d : Document) :
    (restore id q d).map (renumber ρ) = restore (ρ.id id) q d := by
  simp only [restore, List.map_append, apply_ite (List.map (renumber ρ)), List.map_cons,
    List.map_nil]
  rfl

theorem map_finishLoad (l : Loading) :
    (finishLoad id l).map (renumber ρ) = finishLoad (ρ.id id) (l.renumber ρ) := by
  simp only [finishLoad, List.map_append, apply_ite (List.map (renumber ρ)), List.map_cons,
    List.map_nil, List.cons_append]
  rfl

end

end Instr

end ScriptHost
