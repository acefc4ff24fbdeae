import ScriptHost.Proofs.Engine.Ending
import ScriptHost.Proofs.Engine.Pursuit
import ScriptHost.Proofs.Engine.SettingUp
import ScriptHost.Proofs.Engine.Telling

/-!
# What the outcome of a handler leads to

A turn that has taken an ordinary event goes through stages (`Stage`): its
handler runs, the turn applies what was asked for, it sees to the outcome, and it
records it. Whatever the outcome is and whatever the world does, the turn then
hands the slot on. What the turn asks of the world and what it tells of the
outcome is reckoned up over the sections that it does of its own, not over those
of operations that its handler or a hook calls.
-/

namespace ScriptHost

/-! ## The stages of a turn -/

/-- The instance is there, whatever else has become of it. -/
def Machine.Hosts (m : Machine) (id : Nat) (i : Instance) : Prop :=
  ∃ j, m.get? id = some j ∧ j.identity = i.identity ∧ j.limits = i.limits

namespace Machine.Hosts

variable {m : Machine} {id : Nat} {i : Instance}

theorem of_get? (h : m.get? id = some i) : m.Hosts id i := ⟨i, h, rfl, rfl⟩

theorem exec (h : m.Hosts id i) (a : Instr) (r : Reply) : (a.exec m r).machine.Hosts id i := by
  obtain ⟨j, hj, same, limits⟩ := h
  obtain ⟨s, p, hk⟩ := Machine.get?_exec r a hj
  obtain ⟨same', limits', -⟩ := a.fixed_alter id j
  exact ⟨_, hk, same'.trans same, limits'.trans limits⟩

theorem step {S T : System} {h : List Section} (H : S.machine.Hosts id i) (s : S.Step h T) :
    T.machine.Hosts id i := by
  rcases s.joins_or_moves with ⟨-, J⟩ | ⟨a, rest, reply, others, -, M⟩
  · unfold Machine.Hosts
    rwa [J.get?]
  · rw [M.machine]
    exact H.exec a reply

end Machine.Hosts

/-- How far a turn's handler has got. -/
inductive Handling (v : Invocation) : List Instr → Prop where
  | reads {w : Invocation} : w.Same v → Handling v [.readDetected w]
  | locks {w : Invocation} : w.Same v → Handling v [.lockScript w]
  | settles {w : Invocation} : w.Same v → Handling v [.settle w.id, .enter w]
  | enters {w : Invocation} : w.Same v → Handling v [.enter w]
  | parks {w : Invocation} {job : Nat} {b : Bool} {n : Nat} {l : List Action} : w.Same v →
      Handling v [.parked job b n, .act w l]
  | acts {w : Invocation} {l : List Action} : w.Same v → Handling v [.act w l]

/-- How far a turn has got whose handler has ended, and which has not seen to the outcome yet. -/
inductive Leaving (w : Invocation) (o : Outcome) : List Instr → Prop where
  | settles : Leaving w o (Machine.leave w o)
  | unlocks : Leaving w o [.unlock w.id, .applyRequests w o]
  | applies : Leaving w o [.applyRequests w o]
  | answers {l : List Instr} : (∀ b ∈ l, b.responds w.id = true) →
      Leaving w o (l ++ [.conclude w o])

theorem Fault.fullText_plain (message : String) :
    fullText ⟨message, none⟩ = "Runtime error:\n" ++ message := String.append_empty

theorem Fault.fullText_detailed (message detail : String) :
    fullText ⟨message, some detail⟩ = "Runtime error:\n" ++ message ++ "\n" ++ detail :=
  (String.append_assoc ..).symm

namespace Finish

/-- The name by which an ending is told. -/
def label : Finish → String
  | returned .completed => "completed"
  | returned .eventAborted => "event_aborted"
  | returned .cancelled => "cancelled"
  | returned .selfDelete => "self_delete"
  | returned (.fault _) | panicked _ => "fault"

theorem status_caught (how : Finish) : how.caught.status = how.label := by
  rcases how with (_ | _ | _ | _ | _) | _ <;> rfl

/-- The world is to deliver the first characters of a text, if it knows the entity when it is
looked for. -/
def Shows (i : Instance) (d : List Section) (asks : List Ask) (text : String) : Prop :=
  ∃ s ∈ d, (∃ v f, s.instr = .showFault v f) ∧ asks = ((s.machine.entity? i.localId).map
    (Ask.deliver (String.ofList (text.toList.take i.limits.errorMessageLimit)))).toList

/-- What an instance's world is to be asked after a handler that has ended so. -/
def Demands (id : Nat) (i : Instance) (d : List Section) (asks : List Ask) : Finish → Prop
  | returned (.fault ⟨message, none⟩) => Shows i d asks ("Runtime error:\n" ++ message)
  | returned (.fault ⟨message, some detail⟩) =>
    Shows i d asks ("Runtime error:\n" ++ message ++ "\n" ++ detail)
  | panicked (.literal text) | panicked (.owned text) => Shows i d asks ("Runtime error:\n" ++ text)
  | panicked .other => Shows i d asks "Runtime error:\nevent handler panicked"
  | returned .selfDelete => ∃ s ∈ d, s.instr = .selfDelete id ∧ asks =
      ((s.machine.entity? i.localId).map Ask.delete).toList
  | _ => asks = []

end Finish

namespace Outcome

/-- How the turn sees to the outcome before it records it. -/
def sees (v : Invocation) : Outcome → List Instr
  | .fault f => [.showFault v f]
  | .selfDelete => [.selfDelete v.id]
  | _ => []

/-- What an instance's world is to be asked for an outcome, the text being the fault's own. -/
def Demands (id : Nat) (i : Instance) (d : List Section) (asks : List Ask) : Outcome → Prop
  | .fault f => ∃ s ∈ d, (∃ v, s.instr = .showFault v f) ∧ asks =
      ((s.machine.entity? i.localId).map
        (Ask.deliver (f.visibleText i.limits.errorMessageLimit))).toList
  | .selfDelete => ∃ s ∈ d, s.instr = .selfDelete id ∧ asks =
      ((s.machine.entity? i.localId).map Ask.delete).toList
  | _ => asks = []

theorem Demands.mono {id : Nat} {i : Instance} {d d' : List Section} {asks : List Ask}
    {o : Outcome} (h : o.Demands id i d asks) (sub : d ⊆ d') : o.Demands id i d' asks := by
  cases o with
  | fault | selfDelete =>
    obtain ⟨s, hs, h⟩ := h
    exact ⟨s, sub hs, h⟩
  | _ => exact h

/-- The text of a fault is its heading, its message and its detail; a panic's that of what it
carries. -/
theorem Demands.of_caught {id : Nat} {i : Instance} {d : List Section} {asks : List Ask}
    {how : Finish} (h : how.caught.Demands id i d asks) : how.Demands id i d asks := by
  have shows : ∀ {f : Fault} {text : String}, f.fullText = text →
      Outcome.Demands id i d asks (.fault f) → Finish.Shows i d asks text := by
    rintro f _ rfl ⟨s, hs, ⟨v, shown⟩, e⟩
    exact ⟨s, hs, ⟨v, f, shown⟩, e⟩
  rcases how with (_ | _ | _ | _ | ⟨message, _ | detail⟩) | (text | text | _)
  case returned.fault.none => exact shows (Fault.fullText_plain message) h
  case returned.fault.some => exact shows (Fault.fullText_detailed message detail) h
  case panicked.literal => exact shows (Fault.fullText_plain text) h
  case panicked.owned => exact shows (Fault.fullText_plain text) h
  case panicked.other => exact shows ((Fault.fullText_plain _).trans (by simp)) h
  all_goals exact h

/-- There is nothing to see to, or one thing. -/
theorem sees_cases (v : Invocation) (o : Outcome) :
    (o.sees v = [] ∧ ∀ id i d, o.Demands id i d []) ∨ ∃ a, o.sees v = [a] := by
  cases o with
  | fault | selfDelete => exact .inr ⟨_, rfl⟩
  | _ => exact .inl ⟨rfl, fun _ _ _ => rfl⟩

end Outcome

/-- The stages of a turn that has taken an ordinary event: what it has done since, and what it has to
do before it hands the slot on. -/
inductive Stage (v : Invocation) (i : Instance) : List Section → List Instr → Prop where
  | handles {d : List Section} {l : List Instr} : Handling v l → Reckons d [] [] [] → Stage v i d l
  | leaves {d : List Section} {l : List Instr} {w : Invocation} {how : Finish} : w.Same v →
      Leaving w how.caught l → Reckons d [how] [] [] → Stage v i d l
  | sees {d : List Section} {w : Invocation} {how : Finish} : w.Same v → Reckons d [how] [] [] →
      Stage v i d (how.caught.sees w ++ [.record w how.caught])
  | asks {d : List Section} {w : Invocation} {how : Finish} {a : Ask} : w.Same v →
      Reckons d [how] [] [] → how.caught.Demands v.id i d [a] →
      Stage v i d [a.instr, .record w how.caught]
  | records {d : List Section} {w : Invocation} {how : Finish} {asks : List Ask} : w.Same v →
      Reckons d [how] asks [] → how.caught.Demands v.id i d asks →
      Stage v i d [.record w how.caught]
  | recorded {d : List Section} {how : Finish} {asks : List Ask} {state : String} :
      Reckons d [how] asks
        [.span i.item v.event.name state how.label, .count (.executed how.label)] →
      how.caught.Demands v.id i d asks → Stage v i d []

theorem Instr.calls_of_responds {a : Instr} {id : Nat} (h : a.responds id = true) :
    a.calls = false := by
  cases a <;> first | rfl | cases h

theorem Instr.effort_of_responds {a : Instr} {id : Nat} (h : a.responds id = true) :
    0 < a.effort := by
  cases a <;> first | exact Nat.one_pos | exact Nat.two_pos | cases h

section

variable {v w : Invocation} {i : Instance} {d : List Section} {a : Instr} {l : List Instr}
  {m : Machine} {o : Outcome}

/-- A handler goes on, or it ends. -/
theorem Handling.step (h : Handling v (a :: l)) (here : m.Hosts v.id i) (r : Reply) :
    a.mute = true ∧
    (Section.finish? ⟨m, a⟩ = none ∧
        Handling v ((a.exec m r).next.dropWhile Instr.calls ++ l) ∨
      ∃ w how, w.Same v ∧ Section.finish? ⟨m, a⟩ = some how ∧
        (a.exec m r).next.dropWhile Instr.calls ++ l = Machine.leave w how.caught) := by
  obtain ⟨j, hj, -⟩ := here
  have there : ∀ {w : Invocation}, w.Same v → m.get? w.id = some j := fun h => h.id ▸ hj
  cases h with
  | reads hw =>
    refine ⟨rfl, .inl ⟨rfl, ?_⟩⟩
    simp only [Instr.exec, Instr.leads, there hw]
    exact .locks ⟨hw.id, hw.ticket, hw.event⟩
  | locks hw => exact ⟨rfl, .inl ⟨rfl, .settles hw⟩⟩
  | settles hw => exact ⟨rfl, .inl ⟨rfl, .enters hw⟩⟩
  | enters hw =>
    refine ⟨rfl, .inl ⟨rfl, ?_⟩⟩
    simp only [Instr.exec, Instr.leads, there hw, Machine.enter]
    split <;> exact .acts ⟨hw.id, hw.ticket, hw.event⟩
  | parks hw => exact ⟨rfl, .inl ⟨rfl, .acts hw⟩⟩
  | @acts w l hw =>
    refine ⟨rfl, ?_⟩
    simp only [Instr.exec, Instr.leads, there hw]
    rcases l with - | ⟨x, l⟩
    · exact .inr ⟨w, .returned .completed, hw, rfl, rfl⟩
    · cases x with
      | takeArgument =>
        refine .inl ⟨rfl, ?_⟩
        simp only [Machine.act]
        split <;> exact .acts hw
      | request q => exact .inl ⟨rfl, .acts (w := { w with requests := w.requests ++ [q] })
          ⟨hw.id, hw.ticket, hw.event⟩⟩
      | perform ops =>
        refine .inl ⟨rfl, ?_⟩
        simp only [Machine.act]
        rw [Instr.dropWhile_nested ops (by simp [Instr.calls])]
        exact .acts hw
      | park => exact .inl ⟨rfl, .parks hw⟩
      | cancelIfInterrupted =>
        simp only [Section.finish?, Machine.finish?, Machine.act]
        split
        · exact .inr ⟨w, .returned .cancelled, hw, rfl, rfl⟩
        · exact .inl ⟨rfl, .acts hw⟩
      | finish how => exact .inr ⟨w, how, hw, rfl, rfl⟩
      | _ => exact .inl ⟨rfl, .acts hw⟩

/-- A turn whose handler has ended goes on, or it sees to the outcome. -/
theorem Leaving.step (h : Leaving w o (a :: l)) (here : m.Hosts w.id i) (r : Reply) :
    a.mute = true ∧ Section.finish? ⟨m, a⟩ = none ∧
    (Leaving w o ((a.exec m r).next.dropWhile Instr.calls ++ l) ∨
      (a.exec m r).next.dropWhile Instr.calls ++ l = o.sees w ++ [.record w o]) := by
  obtain ⟨j, hj, -⟩ := here
  generalize e : a :: l = b at h
  cases h with
  | settles => cases e; exact ⟨rfl, rfl, .inl .unlocks⟩
  | unlocks => cases e; exact ⟨rfl, rfl, .inl .applies⟩
  | applies =>
    cases e
    refine ⟨rfl, rfl, .inl ?_⟩
    have answers : ∀ b ∈ w.requests.flatMap (Instr.request w.id), b.responds w.id = true :=
      fun b hb => by
        obtain ⟨q, -, hb⟩ := List.mem_flatMap.mp hb
        exact Instr.responds_request b hb
    simp only [Instr.exec, Instr.leads, hj]
    split
    · rw [Instr.dropWhile_own, List.append_nil]
      · exact .answers answers
      · exact List.forall_mem_append.mpr
          ⟨fun b hb => Instr.calls_of_responds (answers b hb), by simp [Instr.calls]⟩
    · exact .answers (List.forall_mem_nil _)
  | @answers l' hl =>
    rcases l' with - | ⟨b, l'⟩
    · cases e
      refine ⟨rfl, rfl, .inr ?_⟩
      cases o <;> rfl
    · obtain ⟨rfl, rfl⟩ := List.cons.inj e
      obtain ⟨hb, hl'⟩ := List.forall_mem_cons.mp hl
      have next := Machine.responds_next (m := m) (r := r) hb
      refine ⟨Instr.mute_of_responds hb, Section.finish?_of_responds hb, .inl ?_⟩
      rw [Instr.dropWhile_own fun b hb => Instr.calls_of_responds (next b hb), List.append_eq,
        ← List.append_assoc]
      exact .answers (List.forall_mem_append.mpr ⟨next, hl'⟩)

theorem Machine.takeMessageHook_nested (m : Machine) :
    ∃ ops, m.takeMessageHook.2 = Instr.nested ops := by
  unfold takeMessageHook
  split
  · exact ⟨[], rfl⟩
  · exact ⟨_, rfl⟩

theorem Machine.takeDeleteHook_nested (m : Machine) :
    ∃ ops, m.takeDeleteHook.2 = Instr.nested ops := by
  unfold takeDeleteHook
  split
  · exact ⟨[], rfl⟩
  · exact ⟨_, rfl⟩

theorem Machine.asks_showFault (m : Machine) (i : Instance) (f : Fault) :
    (m.showFault i f).2.dropWhile Instr.calls = (((m.entity? i.localId).map
      (Ask.deliver (f.visibleText i.limits.errorMessageLimit))).map Ask.instr).toList := by
  unfold showFault
  simp only
  split
  · next he => rw [show m.entity? i.localId = none from he]; rfl
  · next e he =>
    obtain ⟨ops, hook⟩ :=
      ((m.count .fault).log .error "script runtime error").takeMessageHook_nested
    rw [show m.entity? i.localId = some e from he, hook]
    exact Instr.dropWhile_nested ops (by simp [Instr.calls])

theorem Machine.asks_selfDelete (m : Machine) (id : Nat) (i : Instance) :
    (m.selfDelete id i).2.dropWhile Instr.calls =
      (((m.entity? i.localId).map Ask.delete).map Ask.instr).toList := by
  unfold selfDelete
  simp only
  split
  · next he => rw [show m.entity? i.localId = none from he]; rfl
  · next e he =>
    obtain ⟨ops, hook⟩ := ((m.modify id fun i => { i with selfDeleting := true }).log .info
      "script deleting its own entity").takeDeleteHook_nested
    rw [show m.entity? i.localId = some e from he, hook]
    exact Instr.dropWhile_nested ops (by simp [Instr.calls])

/-- The world is asked what it is to be asked. -/
theorem Outcome.step_sees {s : Instr} (hs : o.sees w = [s]) (hw : w.id = v.id)
    (here : m.Hosts v.id i) (r : Reply) :
    s.mute = true ∧ Section.finish? ⟨m, s⟩ = none ∧ ∃ asks : Option Ask,
      o.Demands v.id i [⟨m, s⟩] asks.toList ∧
      (s.exec m r).next.dropWhile Instr.calls = (asks.map Ask.instr).toList := by
  obtain ⟨j, hj, same, limits⟩ := here
  have known : j.localId = i.localId := congrArg Identity.localId same
  cases o with
  | fault f =>
    obtain rfl := List.singleton_inj.mp hs
    refine ⟨rfl, rfl, _, ⟨_, List.mem_singleton_self _, ⟨w, rfl⟩, rfl⟩, ?_⟩
    simp only [Instr.exec, Instr.leads, hw, hj]
    rw [← known, ← limits]
    exact m.asks_showFault j f
  | selfDelete =>
    obtain rfl := List.singleton_inj.mp hs
    refine ⟨rfl, rfl, _, ⟨_, List.mem_singleton_self _, congrArg Instr.selfDelete hw, rfl⟩, ?_⟩
    simp only [Instr.exec, Instr.leads, hw, hj]
    rw [← known]
    exact m.asks_selfDelete v.id j
  | _ => cases hs

/-- A turn goes on. -/
theorem Stage.step (G : Stage v i d (a :: l)) (here : m.Hosts v.id i) (r : Reply) :
    Stage v i (d ++ [⟨m, a⟩]) ((a.exec m r).next.dropWhile Instr.calls ++ l) := by
  have record : ∀ {w : Invocation} {how : Finish} {asks : List Ask}, w.Same v →
      Reckons d [how] asks [] → how.caught.Demands v.id i d asks →
      a :: l = [.record w how.caught] →
      Stage v i (d ++ [⟨m, a⟩]) ((a.exec m r).next.dropWhile Instr.calls ++ l) := by
    intro w how asks hw R D e
    obtain ⟨rfl, rfl⟩ := List.cons.inj e
    obtain ⟨j, hj, same, -⟩ := here
    have item : j.item = i.item := congrArg Identity.item same
    have R' := R.record (m := m) (v := w) (o := how.caught) (hw.id ▸ hj)
    rw [List.nil_append, item, hw.event, how.status_caught] at R'
    simp only [Instr.exec, Instr.next_about]
    exact .recorded R' (D.mono (List.subset_append_left _ _))
  generalize e : a :: l = b at G
  cases G with
  | handles h R =>
    subst e
    obtain ⟨mute, ⟨none, h⟩ | ⟨w, how, hw, ends, e⟩⟩ := h.step here r
    · exact .handles h (by simpa [none] using R.mute (s := ⟨m, a⟩) mute)
    · rw [e]
      exact .leaves hw .settles (by simpa [ends] using R.mute (s := ⟨m, a⟩) mute)
  | leaves hw h R =>
    subst e
    obtain ⟨mute, none, h⟩ := h.step (hw.id ▸ here) r
    have R' := R.mute (s := ⟨m, a⟩) mute
    rw [none, Option.toList_none, List.append_nil] at R'
    rcases h with h | e
    · exact .leaves hw h R'
    · rw [e]
      exact .sees hw R'
  | @sees w how hw R =>
    rcases how.caught.sees_cases w with ⟨nothing, free⟩ | ⟨s, hs⟩
    · rw [nothing] at e
      exact record hw R (free _ _ _) e
    · rw [hs] at e
      obtain ⟨rfl, rfl⟩ := List.cons.inj e
      obtain ⟨mute, none, asks, D, next⟩ := Outcome.step_sees hs hw.id here r
      have R' := R.mute (s := ⟨m, a⟩) mute
      rw [none, Option.toList_none, List.append_nil] at R'
      have D' := D.mono (List.subset_append_right d _)
      rw [next]
      cases asks with
      | none => exact .records hw R' D'
      | some a => exact .asks hw R' D'
  | @asks w how a' hw R D =>
    obtain ⟨rfl, rfl⟩ := List.cons.inj e
    have next : (a'.instr.exec m r).next = [] := by cases a' <;> rfl
    rw [next]
    exact .records hw (R.ask m) (D.mono (List.subset_append_left _ _))
  | records hw R D => exact record hw R D e
  | recorded => cases e

/-- Nothing has been asked or told as long as the handler runs. -/
theorem Stage.reckons (G : Stage v i d l) :
    Reckons d [] [] [] ∨ ∃ how asks told, Reckons d [how] asks told := by
  cases G with
  | handles _ R => exact .inl R
  | leaves _ _ R | sees _ R | asks _ R | records _ R | recorded R => exact .inr ⟨_, _, _, R⟩

/-- A turn that has only to hand the slot on has recorded what its handler came to. -/
theorem Stage.done (G : Stage v i d []) : ∃ how asks state,
    Reckons d [how] asks
      [.span i.item v.event.name state how.label, .count (.executed how.label)] ∧
    how.caught.Demands v.id i d asks := by
  generalize e : ([] : List Instr) = l at G
  cases G with
  | handles h => cases h <;> cases e
  | leaves _ h =>
    cases h with
    | answers => exact absurd (List.append_eq_nil_iff.mp e.symm).2 (List.cons_ne_nil _ _)
    | _ => cases e
  | sees => exact absurd (List.append_eq_nil_iff.mp e.symm).2 (List.cons_ne_nil _ _)
  | asks | records => cases e
  | recorded R D => exact ⟨_, _, _, R, D⟩

/-! ## To the end -/

/-- A section that leads to nothing. -/
theorem Instr.Passes.last (free : ∀ m, a.blocked m = false) (op : ∀ o, a ≠ .op o)
    (next : ∀ m r, (a.exec m r).next = []) : Passes [a] :=
  .leads free op fun m r _ => next m r ▸ .nil

theorem Instr.passes_finishTurn (id ticket : Nat) : Passes [.finishTurn id ticket] :=
  .last (fun _ => rfl) nofun fun _ _ => Instr.next_about

theorem Instr.passes_record (v : Invocation) (o : Outcome) : Passes [.record v o] :=
  .last (fun _ => rfl) nofun fun _ _ => Instr.next_about

theorem Instr.passes_ask (a : Ask) : Passes [a.instr] := by
  cases a with
  | deliver | delete => exact .last (fun _ => rfl) nofun fun _ _ => rfl

theorem Outcome.passes_sees (v : Invocation) (o : Outcome) : Instr.Passes (o.sees v) := by
  cases o with
  | fault f =>
    refine .leads (fun _ => rfl) (fun _ => Instr.noConfusion) fun m r quiet => ?_
    have unhooked : m.messageHooks = [] := congrArg (·.2.1) quiet
    simp only [Instr.exec, Instr.leads]
    split
    · simp only [Machine.showFault]
      split
      · exact .nil
      · rw [Machine.takeMessageHook_of_none
          (m := (m.count .fault).log .error "script runtime error") unhooked]
        exact Instr.passes_ask (.deliver _ _)
    · exact .nil
  | selfDelete =>
    refine .leads (fun _ => rfl) (fun _ => Instr.noConfusion) fun m r quiet => ?_
    have unhooked : m.deleteHooks = [] := congrArg (·.2.2) quiet
    simp only [Instr.exec, Instr.leads]
    split
    · simp only [Machine.selfDelete]
      split
      · exact .nil
      · rw [Machine.takeDeleteHook_of_none
          (m := (m.modify v.id fun i => { i with selfDeleting := true }).log .info
            "script deleting its own entity") unhooked]
        exact Instr.passes_ask (.delete _)
    · exact .nil
  | _ => exact .nil

theorem Leaving.passes (h : Leaving w o l) : Instr.Passes l := by
  have concludes : Instr.Passes [.conclude w o] := by
    refine .leads (fun _ => rfl) (fun _ => Instr.noConfusion) fun m r _ => ?_
    have next : ((Instr.conclude w o).exec m r).next = o.sees w ++ [.record w o] := by
      cases o <;> rfl
    rw [next]
    exact (o.passes_sees w).append (Instr.passes_record w o)
  have answers : ∀ {l : List Instr}, (∀ b ∈ l, b.responds w.id = true) →
      Instr.Passes (l ++ [.conclude w o]) := fun h =>
    (Instr.Passes.of_effort fun b hb => Instr.effort_of_responds (h b hb)).append concludes
  have applies : Instr.Passes [.applyRequests w o] := by
    refine .leads (fun _ => rfl) (fun _ => Instr.noConfusion) fun m r _ => ?_
    simp only [Instr.exec, Instr.leads]
    split
    · split
      · exact answers fun b hb => by
          obtain ⟨q, -, hb⟩ := List.mem_flatMap.mp hb
          exact Instr.responds_request b hb
      · exact concludes
    · exact .nil
  have unlocks : Instr.Passes [.unlock w.id, .applyRequests w o] :=
    (Instr.Passes.last (a := .unlock w.id) (fun _ => rfl) (fun _ => Instr.noConfusion)
      fun _ _ => rfl).append applies
  cases h with
  | settles =>
    exact (Instr.Passes.last (a := .settle w.id) (fun _ => rfl) (fun _ => Instr.noConfusion)
      fun _ _ => rfl).append unlocks
  | unlocks => exact unlocks
  | applies => exact applies
  | answers h => exact answers h

/-- Once its handler has ended, a turn that is left alone comes to its end. -/
theorem Stage.passes (G : Stage v i d l) (ended : d.filterMap Section.finish? ≠ []) :
    Instr.Passes l := by
  cases G with
  | handles _ R => exact absurd R.endings ended
  | leaves _ h => exact h.passes
  | sees => exact (Outcome.passes_sees _ _).append (Instr.passes_record _ _)
  | asks => exact (Instr.passes_ask _).append (Instr.passes_record _ _)
  | records => exact Instr.passes_record _ _
  | recorded => exact .nil

end

namespace System

variable {S T : System} {k id ticket n : Nat} {rest called left : List Instr}
  {own later : List Section} {i : Instance} {e : Event}

/-- A turn that has taken an event, and what it has done since. -/
inductive Course (v : Invocation) (i : Instance) : List Section → List Instr → Prop where
  | onward {d : List Section} {l : List Instr} : Stage v i d l →
      Course v i d (l ++ [.finishTurn v.id v.ticket])
  | past {d : List Section} {m : Machine} : Stage v i d [] → m.Hosts v.id i →
      Course v i (d ++ [⟨m, .finishTurn v.id v.ticket⟩]) []

theorem Course.step {v : Invocation} {d : List Section} {a : Instr} {l : List Instr} {m : Machine}
    (C : Course v i d (a :: l)) (here : m.Hosts v.id i) (r : Reply) :
    Course v i (d ++ [⟨m, a⟩]) ((a.exec m r).next.dropWhile Instr.calls ++ l) := by
  generalize e : a :: l = b at C
  cases C with
  | @onward d l' G =>
    rcases l' with - | ⟨x, l'⟩
    · obtain ⟨rfl, rfl⟩ := List.cons.inj e
      simp only [Instr.exec, Instr.next_about]
      exact .past G here
    · obtain ⟨rfl, rfl⟩ := List.cons.inj e
      rw [List.append_eq, ← List.append_assoc]
      exact .onward (G.step here r)
  | past => cases e

/-- A turn takes its course. -/
theorem Pursues.course (F : Pursues k [.takeTurn id ticket n] rest S own called left T) :
    (own = [] ∧ called = [] ∧ left = [.takeTurn id ticket n]) ∨
    ∃ m later, own = ⟨m, .takeTurn id ticket n⟩ :: later ∧
      ∀ i e q, m.get? id = some i → i.owns ticket = true → i.slot.queue.pop? = some (e, q) →
        e.isSetState = false →
        T.machine.Hosts id i ∧ Course ⟨id, ticket, n, e, "", [], []⟩ i later left := by
  induction F with
  | refl => exact .inl ⟨rfl, rfl, rfl⟩
  | other _ s _ ih =>
    rcases ih with ih | ⟨m, later, rfl, ih⟩
    · exact .inl ih
    · refine .inr ⟨m, later, rfl, fun i e q hi ho hp he => ?_⟩
      obtain ⟨here, C⟩ := ih i e q hi ho hp he
      exact ⟨here.step s, C⟩
  | called _ ht hs ih =>
    obtain ⟨b, tail, hb, -, rfl, -⟩ := Thread.step?_eq_some hs
    rcases ih with ⟨-, h, -⟩ | ⟨m, later, rfl, ih⟩
    · cases h
    · refine .inr ⟨m, later, rfl, fun i e q hi ho hp he => ?_⟩
      obtain ⟨here, C⟩ := ih i e q hi ho hp he
      exact ⟨here.exec b _, C⟩
  | @own own a left T t t' m' F ht hs ih =>
    obtain ⟨r, hr⟩ := F.agenda
    obtain rfl : t = _ := Option.some.inj (ht.symm.trans hr)
    obtain ⟨b, tail, hb, -, rfl, -⟩ := Thread.step?_eq_some hs
    obtain ⟨rfl, -⟩ := List.cons.inj hb
    rcases ih with ⟨rfl, -, e⟩ | ⟨m, later, rfl, ih⟩
    · obtain ⟨rfl, rfl⟩ := List.cons.inj e
      refine .inr ⟨_, [], rfl, fun i e q hi ho hp he => ⟨(Machine.Hosts.of_get? hi).exec _ r, ?_⟩⟩
      have next : ((Instr.takeTurn id ticket n).exec T.machine r).next =
          [.readDetected ⟨id, ticket, n, e, "", [], []⟩, .finishTurn id ticket] := by
        simp [Instr.exec, Instr.leads, hi, Machine.takeTurn, ho, hp, he]
      simp only [next]
      exact .onward (v := ⟨id, ticket, n, e, "", [], []⟩) (.handles (.reads (.refl _)) .nil)
    · refine .inr ⟨m, later ++ [⟨T.machine, a⟩], rfl, fun i e q hi ho hp he => ?_⟩
      obtain ⟨here, C⟩ := ih i e q hi ho hp he
      exact ⟨here.exec a r, C.step here r⟩

theorem Course.reckons {v : Invocation} {d : List Section} {l : List Instr} (C : Course v i d l)
    (runs : d.filterMap Section.finish? = []) : Reckons d [] [] [] := by
  have handles : ∀ {d : List Section} {l : List Instr}, Stage v i d l →
      d.filterMap Section.finish? = [] → Reckons d [] [] [] := by
    intro d l G runs
    refine G.reckons.resolve_right ?_
    rintro ⟨how, asks, told, R⟩
    cases R.endings.symm.trans runs
  cases C with
  | onward G => exact handles G runs
  | @past d m G here =>
    have runs' : d.filterMap Section.finish? = [] := by
      rw [List.filterMap_append] at runs
      exact (List.append_eq_nil_iff.mp runs).1
    exact (handles G runs').mute (s := ⟨m, .finishTurn v.id v.ticket⟩) rfl

theorem Course.passes {v : Invocation} {d : List Section} {l : List Instr} (C : Course v i d l)
    (ended : d.filterMap Section.finish? ≠ []) : Instr.Passes l := by
  cases C with
  | onward G => exact (G.passes ended).append (Instr.passes_finishTurn v.id v.ticket)
  | past => exact .nil

/-- The slot is handed on by the turn that owns it: the next turn is asked for if there is work, and
else no turn is outstanding any more. -/
theorem hands_on {m : Machine} {j : Instance} (hj : m.get? id = some j)
    (outstanding : j.owns ticket = true) (r : Reply) :
    if j.slot.hasWork then
      m.Asked ((Instr.finishTurn id ticket).exec m r).machine id j.clearSnapshot
    else ((Instr.finishTurn id ticket).exec m r).machine.dispatches = m.dispatches ∧
      ((Instr.finishTurn id ticket).exec m r).machine.jobs = m.jobs ∧
      ((Instr.finishTurn id ticket).exec m r).machine.get? id = some j.clearSnapshot.release := by
  have cleared : (m.modify id Instance.clearSnapshot).get? id = some j.clearSnapshot := by
    rw [Machine.get?_modify_self, hj]
    rfl
  simp only [Instr.exec, Instr.about, hj, Instr.plain, Machine.finishTurn, outstanding, if_true]
  split
  · obtain ⟨here, jobs, dispatches, imports⟩ := Machine.requestTurn_of_get? cleared
    exact ⟨here, jobs, dispatches, imports⟩
  · refine ⟨rfl, rfl, ?_⟩
    rw [Machine.get?_modify_self, cleared]
    rfl

/-- What comes of a turn that takes an ordinary event, whatever its handler does and other threads do
meanwhile; `later` is what the turn does of its own after it has taken the event. As long as the
handler runs, the turn asks nothing of the world and tells nothing. Once the handler has ended, the
turn comes to its end alone, if nobody is called back. When it has, the handler has ended once. The
world has been asked to deliver the cut text of a fault, or to delete the entity of a script that
deletes itself, once if the entity was known, and nothing otherwise; what the world then does is
noted, and if it refuses nothing is. One span and one count tell of the outcome. And the last section
of the turn, if the slot is still the turn's, asks for the next turn exactly when the instance runs
with events queued. -/
theorem outcome_told {m : Machine} {q : Queue}
    (F : Pursues k [.takeTurn id ticket n] rest S (⟨m, .takeTurn id ticket n⟩ :: later) called left
      T)
    (hi : m.get? id = some i) (outstanding : i.owns ticket = true)
    (first : i.slot.queue.pop? = some (e, q)) (ordinary : e.isSetState = false) :
    (later.filterMap Section.finish? = [] → Reckons later [] [] []) ∧
    (later.filterMap Section.finish? ≠ [] → called = [] → T.machine.hooks = ([], [], []) →
      ∃ t fuel m' r, T.threads[k]? = some t ∧ t.run fuel T.machine = (m', ⟨rest, r⟩)) ∧
    (called = [] → left = [] → ∃ how asks state before m' j,
      Reckons later [how] asks
        [.span i.item e.name state how.label, .count (.executed how.label)] ∧
      how.Demands id i later asks ∧
      (∀ s ∈ later, ∀ a, s.instr.ask? = some a →
        s.told = if s.machine.has a.refusal then [] else [a.note]) ∧
      later = before ++ [⟨m', .finishTurn id ticket⟩] ∧ m'.get? id = some j ∧
      (j.owns ticket = true →
        let N := ((Instr.finishTurn id ticket).exec m' .nothing).machine
        if j.slot.hasWork then m'.Asked N id j.clearSnapshot
        else N.dispatches = m'.dispatches ∧ N.jobs = m'.jobs ∧
          N.get? id = some j.clearSnapshot.release)) := by
  rcases F.course with ⟨h, -⟩ | ⟨m, later, h, C⟩
  · cases h
  obtain ⟨hs, rfl⟩ := List.cons.inj h
  cases hs
  obtain ⟨-, C⟩ := C i e q hi outstanding first ordinary
  refine ⟨C.reckons, fun ended nothing quiet => ?_, fun _ done => ?_⟩
  · obtain ⟨r, hr⟩ := F.agenda
    obtain ⟨fuel, m', r', passed, -⟩ := C.passes ended T.machine r rest quiet
    refine ⟨_, fuel, m', r', hr, ?_⟩
    rw [nothing, List.nil_append]
    exact passed
  · generalize left = l at C done
    subst done
    generalize hl : ([] : List Instr) = l at C
    cases C with
    | onward => exact absurd (List.append_eq_nil_iff.mp hl.symm).2 (List.cons_ne_nil _ _)
    | @past d m' G here =>
      obtain ⟨j, hj, -⟩ := here
      obtain ⟨how, asks, state, R, D⟩ := G.done
      exact ⟨how, asks, state, d, m', j, R.mute (s := ⟨m', .finishTurn id ticket⟩) rfl,
        (D.mono (List.subset_append_left _ _)).of_caught, fun s _ a => Section.told_of_ask, rfl, hj,
        fun owns => hands_on hj owns .nothing⟩

/-- A host with a script whose handler panics, and a worker that has claimed the script's turn. -/
def crashing : List Section × System := System.play 40 ⟨.bare true, []⟩
  [.call (.loadNew "a" 1 (.answering [("state_entry", [.finish (.panicked .other)])])),
    .claim 1]

/-- What the worker does of its own. -/
def crashed : Pursuit := Pursuit.go 20 ⟨[], [], [.takeTurn 0 1 1], crashing.2.machine, .nothing⟩

theorem outcome_told_crashing : ∃ i e q later T,
    Pursues 1 [.takeTurn 0 1 1] [.jobDone 1] crashing.2
      (⟨crashing.2.machine, .takeTurn 0 1 1⟩ :: later) [] [] T ∧
    crashing.2.machine.get? 0 = some i ∧ i.owns 1 = true ∧ i.slot.queue.pop? = some (e, q) ∧
    e.isSetState = false ∧ later.filterMap Section.finish? = [.panicked .other] ∧
    ∃ how asks state before m' j,
      Reckons later [how] asks
        [.span i.item e.name state how.label, .count (.executed how.label)] ∧
      how.Demands 0 i later asks ∧
      (∀ s ∈ later, ∀ a, s.instr.ask? = some a →
        s.told = if s.machine.has a.refusal then [] else [a.note]) ∧
      later = before ++ [⟨m', .finishTurn 0 1⟩] ∧ m'.get? 0 = some j ∧
      (j.owns 1 = true →
        let N := ((Instr.finishTurn 0 1).exec m' .nothing).machine
        if j.slot.hasWork then m'.Asked N 0 j.clearSnapshot
        else N.dispatches = m'.dispatches ∧ N.jobs = m'.jobs ∧
          N.get? 0 = some j.clearSnapshot.release) := by
  obtain ⟨i, e, q, later, hk, hi, ho, hp, he, hown, hcalled, hleft, hoc⟩ :
      ∃ i e q later, crashing.2.threads[1]? = some ⟨[.takeTurn 0 1 1, .jobDone 1], .nothing⟩ ∧
        crashing.2.machine.get? 0 = some i ∧ i.owns 1 = true ∧
        i.slot.queue.pop? = some (e, q) ∧ e.isSetState = false ∧
        crashed.own = ⟨crashing.2.machine, .takeTurn 0 1 1⟩ :: later ∧
        crashed.called = [] ∧ crashed.left = [] ∧
        later.filterMap Section.finish? = [.panicked .other] :=
    ⟨_, _, _, _, rfl, rfl, rfl, rfl, rfl, rfl, rfl, rfl, rfl⟩
  have claimed : Pursues 1 [.takeTurn 0 1 1] [.jobDone 1] crashing.2 [] [] [.takeTurn 0 1 1]
    crashing.2 := .refl hk
  obtain ⟨us, F, -⟩ := Pursues.alone
    (p := ⟨[], [], [.takeTurn 0 1 1], crashing.2.machine, .nothing⟩) 20 claimed hk
  change Pursues 1 _ _ _ crashed.own crashed.called crashed.left _ at F
  rw [hown, hcalled, hleft] at F
  obtain ⟨-, -, told⟩ := outcome_told F hi ho hp he
  exact ⟨i, e, q, later, _, F, hi, ho, hp, he, hoc, told rfl rfl⟩

end System

end ScriptHost
