import ScriptHost.Proofs.Engine.Noting
import ScriptHost.Proofs.Engine.Requests

/-!
# What a turn tells of its outcome

A turn asks its world to deliver a text or to delete an entity, and notes how its
handler has ended. What some sections come to in this is reckoned up over them
(`Reckons`); most sections of a turn do neither (`Instr.mute`).
-/

namespace ScriptHost

/-! ## Asking and telling -/

/-- What the world is asked to do for a script. -/
inductive Ask where
  | deliver (text : String) (e : Entity)
  | delete (e : Entity)

namespace Ask

/-- How the world's doing it is noted. -/
def note : Ask → Note
  | deliver text e => .message text Int32.maxValue e.position e.name e.id
  | delete e => .delete e.id

/-- The defect of a world that refuses. -/
def refusal : Ask → Defect
  | deliver _ _ => .refuseMessages
  | delete _ => .refuseDelete

/-- The section in which the world answers. -/
def instr : Ask → Instr
  | deliver text e => .delivered text e
  | delete e => .deleted e

end Ask

/-- What the world is asked to do by a section. -/
def Instr.ask? : Instr → Option Ask
  | .delivered text e => some (.deliver text e)
  | .deleted e => some (.delete e)
  | _ => none

/-- Notes of what the world has done for a script, and of how a handler has ended. -/
def Note.tells : Note → Bool
  | .message _ _ _ _ _ | .delete _ | .span _ _ _ _ | .count (.executed _) => true
  | _ => false

/-- How the call of a handler comes to an end that has these actions left, if it ends now. -/
def Machine.finish? (m : Machine) (v : Invocation) : List Action → Option Finish
  | [] => some (.returned .completed)
  | .finish how :: _ => some how
  | .cancelIfInterrupted :: _ =>
    if m.interrupted v.job then some (.returned .cancelled) else none
  | _ => none

namespace Section

/-- How the call of a handler comes to an end in the section. -/
def finish? (s : Section) : Option Finish :=
  match s.instr with
  | .act v l => s.machine.finish? v l
  | _ => none

/-- What the section notes that tells of the world or of an outcome, in order. -/
def told (s : Section) : List Note := s.notes.filter Note.tells

end Section

namespace Instr

/-- Sections of a turn that neither ask the world nor tell. -/
def mute : Instr → Bool
  | .readDetected _ | .lockScript _ | .settle _ | .enter _ | .act _ _ | .parked _ _ _ | .unlock _
  | .applyRequests _ _ | .conclude _ _ | .selfDelete _ | .showFault _ _ | .finishTurn _ _
  | .post _ _ | .removeState _ | .edit _ _ | .clearPermissions _ | .removePlugins _
  | .replaceState _ _ | .publishMask _ | .letGo _ _ | .stateEntryUnlessCurrent _ => true
  | _ => false

theorem mute_of_responds {a : Instr} {id : Nat} (h : a.responds id = true) : a.mute = true := by
  cases a <;> first | rfl | cases h

theorem ask?_of_mute {a : Instr} (h : a.mute = true) : a.ask? = none := by
  cases a <;> first | rfl | cases h

end Instr

namespace Section

variable {s : Section}

theorem finish?_of_responds {m : Machine} {a : Instr} {id : Nat} (h : a.responds id = true) :
    Section.finish? ⟨m, a⟩ = none := by
  cases a <;> first | rfl | cases h

theorem told_eq (s : Section) : s.told = (s.instr.remarks s.machine).filter Note.tells :=
  filter_notes (fun n hn => by
    cases n with
    | count metric => cases metric <;> first | rfl | cases hn
    | _ => first | rfl | cases hn) s

theorem told_of_mute (h : s.instr.mute = true) : s.told = [] := by
  obtain ⟨m, a⟩ := s
  rw [told_eq]
  cases a with
  | enter v => cases hi : m.get? v.id <;> simp [Instr.remarks, hi, Note.tells]
  | _ => first | rfl | cases h

/-- What the world does is noted, unless it refuses. -/
theorem told_of_ask {a : Ask} (h : s.instr.ask? = some a) :
    s.told = if s.machine.has a.refusal then [] else [a.note] := by
  obtain ⟨m, b⟩ := s
  rw [told_eq]
  cases b with
  | delivered | deleted =>
    obtain rfl := Option.some.inj h
    simp only [Instr.remarks, Ask.refusal]
    split
    · next refuses => exact (if_pos refuses).symm
    · next accepts => exact (if_neg accepts).symm
  | _ => cases h

theorem told_record {m : Machine} {v : Invocation} {o : Outcome} {i : Instance}
    (hi : m.get? v.id = some i) : Section.told ⟨m, .record v o⟩ =
      [.span i.item v.event.name v.state o.status, .count (.executed o.status)] := by
  rw [told_eq]
  simp only [Instr.remarks, hi]
  rfl

end Section

/-- What some sections come to: how a handler has ended in them, what the world has been asked, and
what else has been told. -/
structure Reckons (d : List Section) (endings : List Finish) (asks : List Ask)
    (told : List Note) : Prop where
  endings : d.filterMap Section.finish? = endings
  asks : d.filterMap (·.instr.ask?) = asks
  told : (d.filter (·.instr.ask?.isNone)).flatMap Section.told = told

namespace Reckons

variable {d : List Section} {hows : List Finish} {asks : List Ask} {told : List Note} {s : Section}

theorem nil : Reckons [] [] [] [] := ⟨rfl, rfl, rfl⟩

/-- The handler goes on, or the turn without it. -/
theorem mute (h : Reckons d hows asks told) (ha : s.instr.mute = true) :
    Reckons (d ++ [s]) (hows ++ s.finish?.toList) asks told := by
  have none := Instr.ask?_of_mute ha
  have silent := Section.told_of_mute ha
  refine ⟨?_, ?_, ?_⟩
  · rw [List.filterMap_append, h.endings]
    cases hs : s.finish? <;> simp [hs]
  · simp [h.asks, none]
  · simp [h.told, none, silent]

/-- The world is asked. -/
theorem ask (h : Reckons d hows asks told) {a : Ask} (m : Machine) :
    Reckons (d ++ [⟨m, a.instr⟩]) hows (asks ++ [a]) told := by
  have asked : a.instr.ask? = some a := by cases a <;> rfl
  have none : Section.finish? ⟨m, a.instr⟩ = .none := by cases a <;> rfl
  exact ⟨by simp [h.endings, none], by simp [h.asks, asked], by simp [h.told, asked]⟩

/-- The outcome is recorded. -/
theorem record (h : Reckons d hows asks told) {m : Machine} {v : Invocation} {o : Outcome}
    {i : Instance} (hi : m.get? v.id = some i) : Reckons (d ++ [⟨m, .record v o⟩]) hows asks
      (told ++ [.span i.item v.event.name v.state o.status, .count (.executed o.status)]) := by
  have none : Section.finish? ⟨m, .record v o⟩ = .none := rfl
  have asked : (Instr.record v o).ask? = .none := rfl
  refine ⟨by simp [h.endings, none], by simp [h.asks, asked], ?_⟩
  simp [h.told, asked, Section.told_record hi]

end Reckons

end ScriptHost
